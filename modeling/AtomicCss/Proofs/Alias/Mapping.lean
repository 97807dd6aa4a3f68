import AtomicCss.Proofs.Alias.Expansion
import AtomicCss.Proofs.Walk.Lockstep

/-!
# Rules with other answers

Rules that answer images of what other rules answer, and remember images of what these
remember, go on to do so. Where the image of an element has the name of the element, an
expansion goes the same way in both and comes to images of the same elements.

- `AliasRules.map`: the rules that answer images.
- `AliasRules.resolve_map`: so they answer, and so they remember.
- `AliasRules.lockstep_expand`: expansions in such rules go in lockstep.
-/

namespace AtomicCss

open Walk

variable {α β : Type} (f : α → β)

/-- The table with the images of the values. -/
def Table.mapValues {κ : Type} (t : Table κ α) : Table κ β := t.map fun e => (e.1, f e.2)

/-- The static rule that answers the image. -/
def StaticRule.map (rule : StaticRule α) : StaticRule β := ⟨rule.key, rule.input, f rule.resolved⟩

/-- The pattern rule that answers the images. -/
def PatternRule.map (rule : PatternRule α) : PatternRule β :=
  ⟨rule.key, rule.pattern, fun input => (rule.answer? input).map f⟩

/-- The memo that remembers the images. -/
def Memo.map (m : Memo α) : Memo β := ⟨m.index, m.cells.map (Option.map f)⟩

/-- The rules that answer the images. -/
def AliasRules.map (r : AliasRules α) : AliasRules β where
  statics := Table.mapValues (StaticRule.map f) r.statics
  patterns := Table.mapValues (PatternRule.map f) r.patterns
  memo := r.memo.map f

variable {f}

/-! ## Tables and memos -/

namespace Table

variable {κ : Type}

theorem values_mapValues (t : Table κ α) : values (mapValues f t) = (values t).map f := by
  simp [values, mapValues]

theorem keys_mapValues (t : Table κ α) : keys (mapValues f t) = keys t := by
  simp [keys, mapValues]

theorem erase_mapValues [DecidableEq κ] (t : Table κ α) (k : κ) :
    erase (mapValues f t) k = mapValues f (erase t k) := by
  induction t with
  | nil => rfl
  | cons e t ih =>
    by_cases h : e.1 = k
    · simp [mapValues, erase, h]
    · simpa [mapValues, erase, h] using ih

end Table

namespace Memo

/-- A mapped memo remembers the images of what the memo remembers. -/
theorem get?_map (m : Memo α) (input : String) : (m.map f).get? input = (m.get? input).map f := by
  unfold get? map
  dsimp only
  cases Table.get? m.index input with
  | none => rfl
  | some i => cases h : m.cells[i]? <;> simp [h]

theorem set_map (m : Memo α) (input : String) (answer : α) :
    (m.map f).set input (f answer) = (m.set input answer).map f := by
  unfold set map
  dsimp only
  cases Table.get? m.index input <;> simp [List.map_set]

end Memo

/-! ## Answers -/

namespace AliasRules

/-- Mapped rules answer with the images of the answers, from static rules and patterns alike. -/
theorem lookup?_map (r : AliasRules α) (input : String) :
    (r.map f).lookup? input = (r.lookup? input).map f := by
  have hstatics : (r.map f).statics.values.find? (fun rule => rule.input = input) =
      (r.statics.values.find? fun rule => rule.input = input).map (StaticRule.map f) := by
    rw [map, Table.values_mapValues, List.find?_map]
    rfl
  have hpatterns : (r.map f).patterns.values.findSome? (fun rule => rule.answer? input) =
      (r.patterns.values.findSome? fun rule => rule.answer? input).map f := by
    rw [map, Table.values_mapValues, List.findSome?_map, List.map_findSome?]
    rfl
  unfold lookup?
  rw [hstatics, hpatterns]
  cases r.statics.values.find? fun rule => rule.input = input <;> rfl

theorem remember_map (r : AliasRules α) (input : String) (answer : α) :
    (r.map f).remember input (f answer) = (r.remember input answer).map f := by
  simp only [remember, map, Memo.set_map]

/-- Mapped rules resolve an input to the image of the answer, and remember the image. -/
theorem resolve_map (r : AliasRules α) (input : String) :
    (r.map f).resolve input = ((r.resolve input).1.map f, (r.resolve input).2.map f) := by
  have hmemo : (r.map f).memo.get? input = (r.memo.get? input).map f := Memo.get?_map r.memo input
  unfold resolve
  rw [hmemo, lookup?_map]
  cases r.memo.get? input with
  | some answer => rfl
  | none =>
    cases r.lookup? input with
    | none => rfl
    | some answer => exact congrArg (some (f answer), ·) (remember_map r input answer)

/-! ## Expansions -/

variable {kind : AliasKind} {name? : α → Option String} {name?' : β → Option String}

/-- Elements of one name are expanded in step if the expansions of names are. -/
theorem lockstep_expandElement {g : α → β} (hname : ∀ a, name?' (g a) = name? a)
    {S : AliasRules (List α) → AliasRules (List β) → Prop}
    {expansion : String → Walk (AliasRules (List α)) (Option (List α))}
    {expansion' : String → Walk (AliasRules (List β)) (Option (List β))}
    (h : ∀ name, Lockstep S (fun full full' => full.map (List.map g) = full')
      (expansion name) (expansion' name)) (a : α) :
    Lockstep S (List.Forall₂ fun a b => g a = b) (expandElement name? expansion a)
      (expandElement name?' expansion' (g a)) := by
  unfold expandElement
  rw [hname]
  cases name? a with
  | none => exact lockstep_pure (forall₂_image_iff.2 rfl)
  | some name =>
    refine lockstep_bind (h name) fun full full' hfull => lockstep_pure ?_
    subst hfull
    cases full <;> exact forall₂_image_iff.2 rfl

/-- An expansion goes the same way where images are answered. -/
theorem lockstep_expand {g : α → β} (hname : ∀ a, name?' (g a) = name? a) (b : Nat)
    (path : List String) (input : String) :
    Lockstep (fun r r' => r.map (List.map g) = r')
      (fun full full' => full.map (List.map g) = full')
      (expand kind name? b path input) (expand kind name?' b path input) := by
  induction b generalizing path input with
  | zero => exact lockstep_unfinished
  | succ b ih =>
    rintro r _ rfl
    rw [expand_succ_run, expand_succ_run, resolve_map]
    by_cases hmem : input ∈ path
    · rw [if_pos hmem, if_pos hmem]
      exact .error _ rfl
    rw [if_neg hmem, if_neg hmem]
    rcases r.resolve input with ⟨_ | answer, r₁⟩
    · exact .ok rfl rfl
    · have helements := lockstep_collect_same
        (lockstep_expandElement hname (ih (path ++ [input]))) answer r₁ _ rfl
      rw [← collect_map (expandElement name?' _) g] at helements
      dsimp only [Option.map_some]
      generalize collect (expandElement name? _) answer r₁ = x at helements ⊢
      generalize collect (expandElement name?' _) (answer.map g) (r₁.map _) = y at helements ⊢
      cases helements with
      | unfinished => exact .unfinished
      | error e hr => exact .error e hr
      | ok hfull hr =>
        subst hr
        obtain rfl := forall₂_image_iff.1 hfull
        exact .ok rfl (remember_map _ input _).symm

end AliasRules

end AtomicCss
