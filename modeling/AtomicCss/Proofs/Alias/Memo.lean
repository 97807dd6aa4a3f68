import AtomicCss.Alias.Memo
import Mathlib.Data.List.Nodup

/-!
# What a memo remembers

A memo is an arena, so what it remembers of one input is safe from a change of
another one only as long as no two inputs share a cell.

- `Memo.WellPlaced`: every place is that of a cell, and of one input only.
- `Memo.get?_set_self`, `Memo.get?_set_of_ne`: what is remembered afterwards.
- `Memo.Tidy`: a well placed memo that has an answer for each of its inputs.
- `Memo.Tidy.evict`, `Memo.Tidy.get?_evict`: what is left after forgetting.
-/

namespace AtomicCss.Memo

variable {α : Type} {m : Memo α} {x y : String} {v : α}

/-- Every place is that of a cell, and no two inputs share one. -/
structure WellPlaced (m : Memo α) : Prop where
  inside : ∀ {x i}, Table.get? m.index x = some i → i < m.cells.length
  apart : ∀ {x y i}, Table.get? m.index x = some i → Table.get? m.index y = some i → x = y

/-- A new memo has no places yet. -/
theorem wellPlaced_empty : WellPlaced ({} : Memo α) :=
  ⟨fun h => (nomatch h), fun h => (nomatch h)⟩

@[simp] theorem get?_empty (x : String) : ({} : Memo α).get? x = none := rfl

/-- A new input gets the place behind all cells. -/
theorem index_set_of_none (h : Table.get? m.index x = none) {i : Nat} :
    Table.get? (m.set x v).index y = some i ↔
      (y = x ∧ i = m.cells.length) ∨ (y ≠ x ∧ Table.get? m.index y = some i) := by
  rw [set, h]
  by_cases hy : y = x
  · subst hy
    simp [eq_comm]
  · simp [Table.get?_insert_of_ne _ _ hy, hy]

/-- Remembering keeps the places apart: an input that has a cell keeps it, a new one gets a cell
that no other input has. -/
theorem WellPlaced.set (hm : m.WellPlaced) (x : String) (v : α) : (m.set x v).WellPlaced := by
  cases h : Table.get? m.index x with
  | some i =>
    -- an input that has a place keeps it, and the number of cells stays
    rw [Memo.set, h]
    exact ⟨fun hi => by simpa using hm.inside hi, hm.apart⟩
  | none =>
    have hlength : (m.set x v).cells.length = m.cells.length + 1 := by simp [Memo.set, h]
    constructor
    · intro y i hi
      rw [hlength]
      rcases (index_set_of_none h).1 hi with ⟨-, rfl⟩ | ⟨-, hi⟩
      · exact Nat.lt_succ_self _
      · exact Nat.lt_succ_of_lt (hm.inside hi)
    · intro y z i hy hz
      -- the place behind all cells was the place of no input
      rcases (index_set_of_none h).1 hy with ⟨hyx, hyi⟩ | ⟨-, hy⟩ <;>
        rcases (index_set_of_none h).1 hz with ⟨hzx, hzi⟩ | ⟨-, hz⟩
      · exact hyx.trans hzx.symm
      · exact absurd (hyi ▸ hm.inside hz) (Nat.lt_irrefl _)
      · exact absurd (hzi ▸ hm.inside hy) (Nat.lt_irrefl _)
      · exact hm.apart hy hz

/-- An input finds what was remembered of it last. -/
theorem get?_set_self (hm : m.WellPlaced) (x : String) (v : α) :
    (m.set x v).get? x = some v := by
  cases h : Table.get? m.index x with
  | some i => simp [get?, set, h, hm.inside h]
  | none => simp [get?, set, h]

/-- Remembering something of one input does not touch what another one finds. -/
theorem get?_set_of_ne (hm : m.WellPlaced) (v : α) (h : y ≠ x) :
    (m.set x v).get? y = m.get? y := by
  cases hx : Table.get? m.index x with
  | some i =>
    cases hy : Table.get? m.index y with
    | none => simp [get?, set, hx, hy]
    | some j =>
      -- the two inputs do not share a cell
      have hij : i ≠ j := fun hij => h (hm.apart hy (hij ▸ hx))
      simp [get?, set, hx, hy, List.getElem?_set_ne hij]
  | none =>
    cases hy : Table.get? m.index y with
    | none => simp [get?, set, hx, Table.get?_insert_of_ne _ _ h, hy]
    | some j =>
      have hj := hm.inside hy
      simp [get?, set, hx, Table.get?_insert_of_ne _ _ h, hy, List.getElem?_append_left hj]

/-- Remembered answers are found as in a table, as long as no two inputs share a cell. -/
theorem WellPlaced.get?_set (hm : m.WellPlaced) (x : String) (v : α) (y : String) :
    (m.set x v).get? y = if x = y then some v else m.get? y := by
  split
  · next hxy => exact hxy ▸ get?_set_self hm x v
  · next hxy => exact get?_set_of_ne hm v (Ne.symm hxy)

/-! ## Forgetting -/

/-- The inputs that have a place. -/
def inputs (m : Memo α) : List String := Table.keys m.index

/-- A well placed memo in which each input has one place, and an answer there. -/
structure Tidy (m : Memo α) : Prop extends WellPlaced m where
  once : m.inputs.Nodup
  filled : ∀ {x}, x ∈ m.inputs → ∃ v, m.get? x = some v

theorem tidy_empty : Tidy ({} : Memo α) :=
  ⟨wellPlaced_empty, List.nodup_nil, fun h => (nomatch h)⟩

/-- Only an input that has a place can have an answer. -/
theorem mem_inputs_of_get? (h : m.get? x = some v) : x ∈ m.inputs := by
  by_contra hx
  rw [get?, Table.get?_eq_none_iff.2 hx] at h
  cases h

/-- A new input comes last, and one that is remembered again keeps its place. -/
theorem inputs_set (m : Memo α) (x : String) (v : α) :
    (m.set x v).inputs = if x ∈ m.inputs then m.inputs else m.inputs ++ [x] := by
  cases hx : Table.get? m.index x with
  | none =>
    rw [set, hx]
    exact Table.keys_insert m.index x m.cells.length
  | some i =>
    have hmem : x ∈ m.inputs := by
      by_contra hout
      rw [Table.get?_eq_none_iff.2 hout] at hx
      cases hx
    rw [set, hx, if_pos hmem]
    rfl

theorem mem_inputs_set : y ∈ (m.set x v).inputs ↔ y = x ∨ y ∈ m.inputs := by
  rw [inputs_set]
  split
  · next hx => exact ⟨.inr, fun hy => hy.elim (fun hyx => hyx ▸ hx) id⟩
  · rw [List.mem_append, List.mem_singleton, or_comm]

/-- Remembering keeps a memo tidy: the input is listed once and has an answer, and the others keep
theirs. -/
theorem Tidy.set (hm : m.Tidy) (x : String) (v : α) : (m.set x v).Tidy where
  toWellPlaced := hm.toWellPlaced.set x v
  once := by
    rw [inputs_set]
    split
    · exact hm.once
    · next hx => exact List.concat_eq_append ▸ hm.once.concat hx
  filled := by
    intro y hy
    by_cases hyx : y = x
    · exact ⟨v, hyx ▸ get?_set_self hm.toWellPlaced x v⟩
    · rw [get?_set_of_ne hm.toWellPlaced v hyx]
      exact hm.filled ((mem_inputs_set.1 hy).resolve_left hyx)

/-- Cells are emptied but never taken away, so that no place is lost. -/
theorem length_clear (cells : List (Option α)) (places : List Nat) :
    (clear cells places).length = cells.length := by
  induction places generalizing cells with
  | nil => rfl
  | cons i places ih => exact (ih _).trans (List.length_set)

/-- Only the cells in the given places are emptied. -/
theorem getElem?_clear_of_notMem {cells : List (Option α)} {places : List Nat} {i : Nat}
    (h : i ∉ places) : (clear cells places)[i]? = cells[i]? := by
  induction places generalizing cells with
  | nil => rfl
  | cons j places ih =>
    obtain ⟨hij, hi⟩ : i ≠ j ∧ i ∉ places := by simpa using h
    exact (ih hi).trans (List.getElem?_set_ne (Ne.symm hij))

/-- The inputs that are left are those that are not to be forgotten, in the same order. -/
theorem inputs_evict (m : Memo α) (p : String → Bool) :
    (m.evict p).inputs = m.inputs.filter fun x => !p x :=
  Table.keys_eraseIf p m.index

theorem mem_inputs_evict {p : String → Bool} :
    x ∈ (m.evict p).inputs ↔ x ∈ m.inputs ∧ p x = false := by
  rw [inputs_evict, List.mem_filter, Bool.not_eq_true']

section

variable {p : String → Bool} (hm : m.Tidy)

include hm

/-- With one place for each input, the places that are listed are those that are found. -/
theorem Tidy.mem_index_iff {i : Nat} : (x, i) ∈ m.index ↔ Table.get? m.index x = some i :=
  (Table.get?_eq_some_iff hm.once).symm

theorem Tidy.once_evict : (m.evict p).inputs.Nodup := by
  rw [inputs_evict]
  exact hm.once.filter _

/-- The places that are left are those of the inputs that are left. -/
theorem Tidy.index_evict {i : Nat} :
    Table.get? (m.evict p).index x = some i ↔ Table.get? m.index x = some i ∧ p x = false := by
  rw [Table.get?_eq_some_iff hm.once_evict, ← hm.mem_index_iff]
  simp [evict]

/-- Forgetting an input does not empty the cell of another one. -/
theorem Tidy.getElem?_cells_evict {i : Nat} (hi : Table.get? m.index x = some i)
    (hp : p x = false) : (m.evict p).cells[i]? = m.cells[i]? := by
  refine getElem?_clear_of_notMem fun hmem => ?_
  obtain ⟨⟨y, j⟩, hy, rfl⟩ := List.mem_map.1 hmem
  obtain ⟨hy, hpy⟩ := List.mem_filter.1 hy
  -- an input that is forgotten would share the cell
  obtain rfl := hm.apart (hm.mem_index_iff.1 hy) hi
  rw [hp] at hpy
  cases hpy

/-- Afterwards nothing is found of the inputs that are forgotten, and the others find what they
found before. -/
theorem Tidy.get?_evict : (m.evict p).get? x = if p x then none else m.get? x := by
  cases hp : p x with
  | true =>
    have hx : x ∉ (m.evict p).inputs := by simp [mem_inputs_evict, hp]
    rw [get?, Table.get?_eq_none_iff.2 hx]
    rfl
  | false =>
    cases hi : Table.get? m.index x with
    | none =>
      have hx : x ∉ (m.evict p).inputs :=
        fun h => Table.get?_eq_none_iff.1 hi (mem_inputs_evict.1 h).1
      rw [get?, get?, Table.get?_eq_none_iff.2 hx, hi]
      rfl
    | some i =>
      rw [get?, get?, hm.index_evict.2 ⟨hi, hp⟩, hi]
      exact congrArg Option.join (hm.getElem?_cells_evict hi hp)

/-- Forgetting keeps a memo tidy: the inputs that are left keep their places and their answers. -/
theorem Tidy.evict : (m.evict p).Tidy where
  inside := by
    intro x i hi
    show i < (clear m.cells _).length
    rw [length_clear]
    exact hm.inside (hm.index_evict.1 hi).1
  apart := fun hx hy => hm.apart (hm.index_evict.1 hx).1 (hm.index_evict.1 hy).1
  once := hm.once_evict
  filled := by
    intro x hx
    obtain ⟨hx, hp⟩ := mem_inputs_evict.1 hx
    rw [hm.get?_evict, hp]
    exact hm.filled hx

end

end AtomicCss.Memo
