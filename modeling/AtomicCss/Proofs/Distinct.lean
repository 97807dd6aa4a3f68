import AtomicCss.Style.Value
import Mathlib.Data.List.Induction
import Mathlib.Data.List.Nodup

/-!
# First occurrences

- `mem_pushNew`, `mem_distinct`: no element gets lost, and none gets in.
- `distinct_append_singleton`: a list is gone through from its beginning.
- `distinct_map`: first occurrences of images are images of first occurrences.
- `distinct_map_distinct`: repetitions do not matter to the distinct images.
- `distinct_flatMap_distinct`: nor do repetitions inside the lists of a list.
- `length_distinct_eq_iff`: nothing is left out exactly if nothing is repeated.
- `distinct_eq_eraseDups`: duplicates are erased behind the first occurrence.
-/

namespace AtomicCss

variable {α β : Type} [DecidableEq α] {xs : List α} {x y : α}

/-- Pushing an element adds that element at most. -/
theorem mem_pushNew : y ∈ pushNew xs x ↔ y = x ∨ y ∈ xs := by
  unfold pushNew
  split
  · next h => exact ⟨.inr, fun hy => hy.elim (fun heq => heq ▸ h) id⟩
  · simp [or_comm]

/-- The last element of a list is kept only if it is new. -/
theorem distinct_append_singleton (xs : List α) (x : α) :
    distinct (xs ++ [x]) = pushNew (distinct xs) x := by
  rw [distinct, List.foldl_append]
  rfl

/-- Only repetitions are left out. -/
theorem mem_distinct : x ∈ distinct xs ↔ x ∈ xs := by
  induction xs using List.reverseRecOn with
  | nil => exact Iff.rfl
  | append_singleton xs y ih =>
    rw [distinct_append_singleton, mem_pushNew, ih, List.mem_append, List.mem_singleton, or_comm]

/-- What is left is not repeated. -/
theorem nodup_distinct (xs : List α) : (distinct xs).Nodup := by
  induction xs using List.reverseRecOn with
  | nil => exact List.nodup_nil
  | append_singleton xs x ih =>
    rw [distinct_append_singleton, pushNew]
    split
    · exact ih
    · next h => exact List.concat_eq_append ▸ ih.concat h

/-- What is left stays in the order of the list. -/
theorem distinct_sublist (xs : List α) : (distinct xs).Sublist xs := by
  induction xs using List.reverseRecOn with
  | nil => exact List.Sublist.refl []
  | append_singleton xs x ih =>
    rw [distinct_append_singleton, pushNew]
    split
    · exact ih.trans (List.sublist_append_left xs [x])
    · exact ih.append (List.Sublist.refl [x])

/-- A list without repetitions stays as it is. -/
theorem distinct_of_nodup (h : xs.Nodup) : distinct xs = xs := by
  induction xs using List.reverseRecOn with
  | nil => rfl
  | append_singleton xs x ih =>
    rw [← List.concat_eq_append, List.nodup_concat] at h
    obtain ⟨hx, hxs⟩ := h
    rw [distinct_append_singleton, ih hxs, pushNew, if_neg hx]

/-- Nothing is left out exactly if nothing is repeated. -/
theorem length_distinct_eq_iff : (distinct xs).length = xs.length ↔ xs.Nodup := by
  constructor
  · intro h
    rw [← (distinct_sublist xs).eq_of_length h]
    exact nodup_distinct xs
  · intro h
    rw [distinct_of_nodup h]

/-- Different elements stay different under a map that keeps them apart. -/
theorem distinct_map [DecidableEq β] {f : α → β}
    (hf : ∀ x ∈ xs, ∀ y ∈ xs, f x = f y → x = y) :
    distinct (xs.map f) = (distinct xs).map f := by
  induction xs using List.reverseRecOn with
  | nil => rfl
  | append_singleton xs x ih =>
    have hmem : f x ∈ (distinct xs).map f ↔ x ∈ distinct xs := by
      refine ⟨fun h => ?_, List.mem_map_of_mem⟩
      obtain ⟨y, hy, heq⟩ := List.mem_map.1 h
      have hin : y ∈ xs ++ [x] := List.mem_append_left _ (mem_distinct.1 hy)
      exact hf y hin x (List.mem_append_right _ List.mem_cons_self) heq ▸ hy
    have ih := ih fun y hy z hz =>
      hf y (List.mem_append_left _ hy) z (List.mem_append_left _ hz)
    rw [List.map_append, List.map_singleton, distinct_append_singleton,
      distinct_append_singleton, ih, pushNew, pushNew]
    simp only [hmem]
    split
    · rfl
    · rw [List.map_append, List.map_singleton]

/-- Repeated elements have repeated images, which are left out in any case. -/
theorem distinct_map_distinct [DecidableEq β] (f : α → β) (xs : List α) :
    distinct ((distinct xs).map f) = distinct (xs.map f) := by
  induction xs using List.reverseRecOn with
  | nil => rfl
  | append_singleton xs x ih =>
    rw [List.map_append, List.map_singleton, distinct_append_singleton,
      distinct_append_singleton, ← ih, pushNew]
    split
    · next h =>
      rw [pushNew, if_pos (mem_distinct.2 (List.mem_map_of_mem h))]
    · rw [List.map_append, List.map_singleton, distinct_append_singleton]

theorem mem_foldl_pushNew (acc : List α) : x ∈ xs.foldl pushNew acc ↔ x ∈ acc ∨ x ∈ xs := by
  induction xs generalizing acc with
  | nil => simp
  | cons y xs ih =>
    rw [List.foldl_cons, ih, mem_pushNew, List.mem_cons, or_comm (a := x = y), or_assoc]

/-- Repetitions do not matter to what is put behind a list. -/
theorem foldl_pushNew_distinct (acc xs : List α) :
    (distinct xs).foldl pushNew acc = xs.foldl pushNew acc := by
  induction xs using List.reverseRecOn with
  | nil => rfl
  | append_singleton xs x ih =>
    rw [distinct_append_singleton, List.foldl_append, pushNew]
    split
    · next h =>
      -- a repeated element is in the list already
      have hmem : x ∈ xs.foldl pushNew acc := (mem_foldl_pushNew acc).2 (.inr (mem_distinct.1 h))
      rw [ih, List.foldl_cons, List.foldl_nil, pushNew, if_pos hmem]
    · rw [List.foldl_append, ih]

/-- Repetitions inside the lists of a list are left out in any case. -/
theorem distinct_flatMap_distinct (f : β → List α) (bs : List β) :
    distinct (bs.flatMap fun b => distinct (f b)) = distinct (bs.flatMap f) := by
  have hfold (acc : List α) : (bs.flatMap fun b => distinct (f b)).foldl pushNew acc =
      (bs.flatMap f).foldl pushNew acc := by
    induction bs generalizing acc with
    | nil => rfl
    | cons b bs ih =>
      rw [List.flatMap_cons, List.flatMap_cons, List.foldl_append, List.foldl_append,
        foldl_pushNew_distinct, ih]
  exact hfold []

/-- The first occurrences are those that erasing duplicates leaves. -/
theorem distinct_eq_eraseDups (xs : List α) : distinct xs = xs.eraseDups := by
  induction xs using List.reverseRecOn with
  | nil => rfl
  | append_singleton xs x ih =>
    rw [distinct_append_singleton, List.eraseDups_append, pushNew, ← ih]
    by_cases h : x ∈ xs <;> simp [mem_distinct, h, List.removeAll, List.eraseDups_cons]

end AtomicCss
