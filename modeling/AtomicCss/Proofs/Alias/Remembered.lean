import AtomicCss.Proofs.Alias.Memo
import AtomicCss.Proofs.Alias.Unfolding

/-!
# What rules remember

While aliases are expanded the memo holds answers of two sorts: those that the
rules gave, and those that were unfolded to the end. Both are harmless, and an
unfolded answer is never alone.

- `AliasRules.Flat`: the answer that is remembered is the whole unfolding.
- `AliasRules.Sound`: every answer that is remembered is of one of the two sorts,
  and below an unfolded answer all answers are unfolded.
- `AliasRules.Later`: sound rules in which what was unfolded is still unfolded.
- `AliasRules.resolve_cases`: looking up an input leads to later rules.
- `AliasRules.later_remember`: so does remembering the whole unfolding.
-/

namespace AtomicCss.AliasRules

open Reading Relation

variable {α : Type}

section Definitions

variable (kind : AliasKind) (name? : α → Option String) (lookup? : String → Option (List α))

/-- The answer that is remembered for an input is its whole unfolding. -/
def Flat (r : AliasRules (List α)) (input : String) : Prop :=
  ∃ full, r.memo.get? input = some full ∧ Unfolds kind name? lookup? input full

/-- The rules answer by `lookup?` where nothing is remembered, and what they remember agrees
with it. -/
structure Sound (r : AliasRules (List α)) : Prop where
  lookup : ∀ {x}, r.memo.get? x = none → r.lookup? x = lookup? x
  placed : r.memo.WellPlaced
  entry : ∀ {x v}, r.memo.get? x = some v →
    lookup? x = some v ∨ Unfolds kind name? lookup? x v
  below : ∀ {x y}, Flat kind name? lookup? r x → Mentions name? lookup? x y →
    lookup? y ≠ none → Flat kind name? lookup? r y

/-- Sound rules, in which every answer that was unfolded to the end still is. -/
structure Later (r r' : AliasRules (List α)) : Prop where
  sound : Sound kind name? lookup? r'
  flat : ∀ x, Flat kind name? lookup? r x → Flat kind name? lookup? r' x

end Definitions

variable {kind : AliasKind} {name? : α → Option String} {lookup? : String → Option (List α)}
  {r r₁ r₂ : AliasRules (List α)} {x y : String} {v : List α}

theorem Unfolds.exists_lookup (h : Unfolds kind name? lookup? x v) :
    ∃ answer, lookup? x = some answer := by
  obtain ⟨_ | b, hb⟩ := h
  · exact absurd hb not_gives_unfold_zero
  · obtain ⟨-, answer, hanswer, -⟩ := gives_unfold_ok_some.1 hb
    exact ⟨answer, hanswer⟩

/-- Rules that remember nothing are sound. -/
theorem sound_of_fresh (h : r.memo = {}) : Sound kind name? r.lookup? r where
  lookup := fun _ => rfl
  placed := h ▸ Memo.wellPlaced_empty
  entry := by simp [h]
  below := by
    rintro x y ⟨full, hfull, -⟩
    simp [h] at hfull

theorem Later.refl (h : Sound kind name? lookup? r) : Later kind name? lookup? r r :=
  ⟨h, fun _ hx => hx⟩

theorem Later.trans (h₁ : Later kind name? lookup? r r₁) (h₂ : Later kind name? lookup? r₁ r₂) :
    Later kind name? lookup? r r₂ :=
  ⟨h₂.sound, fun x hx => h₂.flat x (h₁.flat x hx)⟩

/-- Only inputs that have an answer are remembered. -/
theorem Sound.exists_lookup (h : Sound kind name? lookup? r) (hx : r.memo.get? x = some v) :
    ∃ answer, lookup? x = some answer := by
  rcases h.entry hx with hv | hv
  · exact ⟨v, hv⟩
  · exact hv.exists_lookup

theorem Sound.get?_eq_none (h : Sound kind name? lookup? r) (hx : lookup? x = none) :
    r.memo.get? x = none := by
  cases hget : r.memo.get? x with
  | none => rfl
  | some v =>
    obtain ⟨answer, hanswer⟩ := h.exists_lookup hget
    rw [hx] at hanswer
    cases hanswer

/-! ## Remembering an answer -/

theorem get?_remember_self (h : r.memo.WellPlaced) (x : String) (v : List α) :
    (r.remember x v).memo.get? x = some v :=
  Memo.get?_set_self h x v

theorem get?_remember_of_ne (h : r.memo.WellPlaced) (v : List α) (hne : y ≠ x) :
    (r.remember x v).memo.get? y = r.memo.get? y :=
  Memo.get?_set_of_ne h v hne

theorem flat_remember_of_ne (h : r.memo.WellPlaced) (v : List α) (hne : y ≠ x) :
    Flat kind name? lookup? (r.remember x v) y ↔ Flat kind name? lookup? r y := by
  unfold Flat
  rw [get?_remember_of_ne h v hne]

/-- Remembering an answer keeps rules sound if the answer is of one of the two
sorts and unfolded answers are not left alone. -/
theorem Sound.remember (h : Sound kind name? lookup? r)
    (hentry : lookup? x = some v ∨ Unfolds kind name? lookup? x v)
    (hflat : ∀ y, Flat kind name? lookup? r y → Flat kind name? lookup? (r.remember x v) y)
    (hbelow : Unfolds kind name? lookup? x v → ∀ y, Mentions name? lookup? x y →
      lookup? y ≠ none → Flat kind name? lookup? (r.remember x v) y) :
    Sound kind name? lookup? (r.remember x v) where
  lookup := by
    intro y hy
    by_cases hyx : y = x
    · subst hyx
      rw [get?_remember_self h.placed] at hy
      cases hy
    · rw [get?_remember_of_ne h.placed v hyx] at hy
      exact h.lookup hy
  placed := h.placed.set x v
  entry := by
    intro y w hy
    by_cases hyx : y = x
    · subst hyx
      rw [get?_remember_self h.placed] at hy
      obtain rfl := Option.some.inj hy
      exact hentry
    · rw [get?_remember_of_ne h.placed v hyx] at hy
      exact h.entry hy
  below := by
    intro y z hy hmentions hz
    by_cases hyx : y = x
    · subst hyx
      obtain ⟨full, hget, hfull⟩ := hy
      rw [get?_remember_self h.placed] at hget
      obtain rfl := Option.some.inj hget
      exact hbelow hfull z hmentions hz
    · -- `y` was unfolded before, so what it mentions was, too, and still is
      rw [flat_remember_of_ne h.placed v hyx] at hy
      exact hflat z (h.below hy hmentions hz)

/-- The answer of the rules may be remembered where nothing was. -/
theorem later_remember_lookup (h : Sound kind name? lookup? r) (hx : r.memo.get? x = none)
    (hv : lookup? x = some v) : Later kind name? lookup? r (r.remember x v) := by
  have hflat : ∀ y, Flat kind name? lookup? r y →
      Flat kind name? lookup? (r.remember x v) y := by
    intro y hy
    -- nothing was remembered for `x`, so it is not one of the unfolded inputs
    have hyx : y ≠ x := by
      rintro rfl
      obtain ⟨full, hget, -⟩ := hy
      rw [hx] at hget
      cases hget
    exact (flat_remember_of_ne h.placed v hyx).2 hy
  refine ⟨h.remember (.inl hv) hflat ?_, hflat⟩
  -- if the answer happens to be unfolded already, nothing below it has an answer
  rintro hfull y ⟨answer, hanswer, a, ha, hname⟩ hy
  obtain rfl : v = answer := Option.some.inj (hv.symm.trans hanswer)
  exact absurd (hfull.settled ha hname) hy

/-- The whole unfolding may be remembered once it is remembered for all that the
answer mentions. -/
theorem later_remember (h : Sound kind name? lookup? r) (hv : Unfolds kind name? lookup? x v)
    (hbelow : ∀ y, Mentions name? lookup? x y → lookup? y ≠ none →
      Flat kind name? lookup? r y) :
    Later kind name? lookup? r (r.remember x v) := by
  have hflat : ∀ y, Flat kind name? lookup? r y →
      Flat kind name? lookup? (r.remember x v) y := by
    intro y hy
    by_cases hyx : y = x
    · subst hyx
      exact ⟨v, get?_remember_self h.placed y v, hv⟩
    · exact (flat_remember_of_ne h.placed v hyx).2 hy
  exact ⟨h.remember (.inr hv) hflat fun _ y hy hne => hflat y (hbelow y hy hne), hflat⟩

/-! ## Looking up an input -/

/-- An input has no answer and nothing happens, or its answer is remembered
afterwards. -/
theorem resolve_cases (h : Sound kind name? lookup? r) (x : String) :
    (lookup? x = none ∧ r.resolve x = (none, r)) ∨
    (∃ v r', r.resolve x = (some v, r') ∧ Later kind name? lookup? r r' ∧
      r'.memo.get? x = some v) := by
  cases hget : r.memo.get? x with
  | some v =>
    refine .inr ⟨v, r, ?_, Later.refl h, hget⟩
    rw [resolve, hget]
  | none =>
    cases hlookup : lookup? x with
    | none =>
      refine .inl ⟨rfl, ?_⟩
      rw [resolve, hget, h.lookup hget, hlookup]
    | some v =>
      refine .inr ⟨v, r.remember x v, ?_, later_remember_lookup h hget hlookup, ?_⟩
      · rw [resolve, hget, h.lookup hget, hlookup]
      · exact get?_remember_self h.placed x v

/-- Looking up an input whose whole unfolding is remembered gives it. -/
theorem Flat.resolve {full : List α} (h : Flat kind name? lookup? r x)
    (hfull : Unfolds kind name? lookup? x full) : (r.resolve x).1 = some full := by
  obtain ⟨full', hget, hfull'⟩ := h
  rw [AliasRules.resolve, hget, hfull.unique hfull']

end AtomicCss.AliasRules
