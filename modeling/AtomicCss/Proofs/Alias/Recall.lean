import AtomicCss.Proofs.Alias.Rulebook

/-!
# What rules recall

A change of the rules forgets the inputs that the old rule of its key answers, and no
other one. An input that was resolved before keeps its answer, also where a new rule or
the new text of an old one answers it now.

- `Rulebook.drops`: the inputs that a request makes rules forget.
- `Rulebook.recalled`: what is remembered of an input after requests, told from the
  requests alone.
- `AliasRules.performAll_recalls`: this is what rules remember.
- `AliasRules.change_effective_iff`: when a change takes effect at once.
- `AliasRules.Coherent.addPattern_new`: a pattern rule of a new key always does, where
  nothing outdated is remembered.
-/

namespace AtomicCss

variable {α : Type}

namespace Rulebook

/-- Does a request make rules forget an input? A change does so where there is a rule of
its key and this rule answers the input. -/
def drops (b : Rulebook α) (x : String) : Request α → Bool
  | .addStatic rule => ((ruleOf? StaticRule.key b.statics rule.key).bind (·.answer? x)).isSome
  | .addPattern rule =>
    ((ruleOf? PatternRule.key b.patterns rule.key).bind (·.answer? x)).isSome
  | .removeStatic key => ((ruleOf? StaticRule.key b.statics key).bind (·.answer? x)).isSome
  | .removePattern key => ((ruleOf? PatternRule.key b.patterns key).bind (·.answer? x)).isSome
  | .resolve _ => false

/-- What is remembered of an input after a request, where `v` was before: only a
resolution of this input adds to it, and what is remembered already stays. -/
def recallAfter (b : Rulebook α) (x : String) (v : Option α) : Request α → Option α
  | .resolve y => if y = x then v.or (b.answer? x) else v
  | q => if b.drops x q then none else v

/-- What is remembered of an input after requests one after the other. -/
def recalled (x : String) : List (Request α) → Rulebook α → Option α → Option α
  | [], _, v => v
  | q :: qs, b, v => recalled x qs (b.perform q).2 (b.recallAfter x v q)

variable {b : Rulebook α} {x : String} {q : Request α} {qs : List (Request α)} {v : Option α}

theorem performAll_append (qs qs' : List (Request α)) (b : Rulebook α) :
    (b.performAll (qs ++ qs')).2 = ((b.performAll qs).2.performAll qs').2 := by
  induction qs generalizing b with
  | nil => rfl
  | cons q qs ih => exact ih (b.perform q).2

theorem performAll_resolves (xs : List String) (b : Rulebook α) :
    (b.performAll (xs.map .resolve)).2 = b := by
  induction xs with
  | nil => rfl
  | cons y xs ih => exact ih

theorem recalled_append (qs qs' : List (Request α)) (b : Rulebook α) (v : Option α) :
    b.recalled x (qs ++ qs') v = (b.performAll qs).2.recalled x qs' (b.recalled x qs v) := by
  induction qs generalizing b v with
  | nil => rfl
  | cons q qs ih => exact ih (b.perform q).2 (b.recallAfter x v q)

/-- A request answers an input from memory or by the rules, and then the same again. -/
theorem recallAfter_or_answer (b : Rulebook α) (v : Option α) (y : String) :
    (b.recallAfter x v (.resolve y)).or (b.answer? x) = v.or (b.answer? x) := by
  by_cases hy : y = x
  · cases v <;> simp [recallAfter, hy]
  · simp [recallAfter, hy]

theorem recalled_resolves_or_answer (xs : List String) (b : Rulebook α) (v : Option α) :
    (b.recalled x (xs.map .resolve) v).or (b.answer? x) = v.or (b.answer? x) := by
  induction xs generalizing v with
  | nil => rfl
  | cons y xs ih => exact (ih _).trans (b.recallAfter_or_answer v y)

/-- Next to the new answer it makes no difference that a resolution remembers one. -/
theorem recallAfter_or_answer_perform (b : Rulebook α) (v : Option α) (q : Request α) :
    (b.recallAfter x v q).or ((b.perform q).2.answer? x) =
      (if b.drops x q then none else v).or ((b.perform q).2.answer? x) := by
  cases q with
  | resolve y => exact b.recallAfter_or_answer v y
  | _ => rfl

end Rulebook

namespace AliasRules

/-- What rules with a memo reply to requests one after the other. -/
def performAll : List (Request α) → AliasRules α → List (Reply α) × AliasRules α
  | [], r => ([], r)
  | q :: qs, r => ((r.perform q).1 :: (performAll qs (r.perform q).2).1,
      (performAll qs (r.perform q).2).2)

variable {r : AliasRules α} {x : String}

/-- What is remembered after a resolution. -/
theorem Filed.get?_resolve (h : r.Filed) (x y : String) :
    (r.resolve y).2.memo.get? x =
      if y = x then (r.memo.get? x).or (r.rulebook.answer? x) else r.memo.get? x := by
  have hset (v : α) := h.tidy.toWellPlaced.get?_set y v x
  rw [resolve, ← lookup?_eq]
  by_cases hyx : y = x
  · subst hyx
    cases hget : r.memo.get? y with
    | some v => simp [hget]
    | none => cases hlookup : r.lookup? y <;> simp [hget, remember, hset]
  · cases r.memo.get? y with
    | some v => simp [hyx]
    | none => cases r.lookup? y <;> simp [hyx, remember, hset]

/-- A change of the rules makes them forget just the inputs that it drops. -/
theorem Filed.memo_perform (h : r.Filed) {q : Request α} (hq : ∀ x, q ≠ .resolve x) :
    (r.perform q).2.memo = r.memo.evict fun x => r.rulebook.drops x q := by
  cases q with
  | addStatic rule =>
    simp only [AliasRules.perform, addStatic_fst, Memo.without_eq_evict, Option.bind_map,
      h.statics.get?_eq_ruleOf?]
    rfl
  | addPattern rule =>
    simp only [AliasRules.perform, addPattern_fst, Memo.without_eq_evict, Option.bind_map,
      h.patterns.get?_eq_ruleOf?]
    rfl
  | removeStatic k =>
    simp only [AliasRules.perform, removeStatic_snd, Memo.without_eq_evict, Option.bind_map,
      h.statics.get?_eq_ruleOf?]
    rfl
  | removePattern k =>
    simp only [AliasRules.perform, removePattern_snd, Memo.without_eq_evict, Option.bind_map,
      h.patterns.get?_eq_ruleOf?]
    rfl
  | resolve x => exact absurd rfl (hq x)

/-- A request changes what is remembered of an input as its rulebook tells. -/
theorem Filed.get?_perform (h : r.Filed) (q : Request α) (x : String) :
    (r.perform q).2.memo.get? x = r.rulebook.recallAfter x (r.memo.get? x) q := by
  cases q with
  | resolve y => exact h.get?_resolve x y
  | _ =>
    rw [h.memo_perform (by nofun), h.tidy.get?_evict]
    rfl

/-- After any requests, rules are those of their rulebook and remember what was resolved and
not forgotten since. -/
theorem Filed.performAll (h : r.Filed) (qs : List (Request α)) :
    (r.performAll qs).2.Filed ∧
      (r.performAll qs).2.rulebook = (r.rulebook.performAll qs).2 ∧
      ∀ x, (r.performAll qs).2.memo.get? x = r.rulebook.recalled x qs (r.memo.get? x) := by
  induction qs generalizing r with
  | nil => exact ⟨h, rfl, fun _ => rfl⟩
  | cons q qs ih =>
    obtain ⟨hfiled, hrulebook, hmemo⟩ := ih (h.perform q)
    rw [h.rulebook_perform] at hrulebook hmemo
    refine ⟨hfiled, hrulebook, fun x => ?_⟩
    rw [Rulebook.recalled, ← h.get?_perform]
    exact hmemo x

theorem fst_resolve (r : AliasRules α) (x : String) :
    (r.resolve x).1 = (r.memo.get? x).or (r.rulebook.answer? x) := by
  rw [resolve, ← lookup?_eq]
  cases r.memo.get? x with
  | some v => rfl
  | none => cases r.lookup? x <;> rfl

/-- What rules reply after any requests, told from the requests alone. -/
theorem performAll_recalls (qs : List (Request α)) (x : String) :
    ((performAll qs {}).2.resolve x).1 =
      (Rulebook.recalled x qs {} none).or ((Rulebook.performAll qs {}).2.answer? x) := by
  obtain ⟨-, hrulebook, hmemo⟩ := filed_empty.performAll qs
  rw [fst_resolve, hrulebook, hmemo]
  rfl

/-- After a request, and any resolutions behind it, an input is answered by what was
remembered of it before, unless the request makes it forgotten, or else by the rules as
they are now. -/
theorem performAll_recalls_change (qs : List (Request α)) (q : Request α) (xs : List String)
    (x : String) :
    ((performAll (qs ++ q :: xs.map .resolve) {}).2.resolve x).1 =
      (if (Rulebook.performAll qs {}).2.drops x q then none
        else Rulebook.recalled x qs {} none).or
        ((Rulebook.performAll (qs ++ [q]) {}).2.answer? x) := by
  rw [performAll_recalls, Rulebook.recalled_append, Rulebook.performAll_append,
    Rulebook.performAll_append]
  show (Rulebook.recalled x (xs.map .resolve) _ _).or
      ((Rulebook.performAll (xs.map .resolve) _).2.answer? x) = _
  rw [Rulebook.performAll_resolves, Rulebook.recalled_resolves_or_answer]
  exact Rulebook.recallAfter_or_answer_perform _ _ q

/-- A change of the rules takes effect on an input at once, and stays in effect whatever is
resolved next, just if what was remembered of the input before the change is forgotten with
it, or is the answer of the changed rules. Otherwise the answer from before stays. -/
theorem change_effective_iff (qs : List (Request α)) (q : Request α) (x : String) :
    ((∀ xs : List String, ((performAll (qs ++ q :: xs.map .resolve) {}).2.resolve x).1 =
        (Rulebook.performAll (qs ++ [q]) {}).2.answer? x) ↔
      ∀ v, Rulebook.recalled x qs {} none = some v →
        (Rulebook.performAll qs {}).2.drops x q = true ∨
          (Rulebook.performAll (qs ++ [q]) {}).2.answer? x = some v) ∧
    ∀ v, Rulebook.recalled x qs {} none = some v →
      (Rulebook.performAll qs {}).2.drops x q = false →
        ∀ xs : List String, ((performAll (qs ++ q :: xs.map .resolve) {}).2.resolve x).1 =
          some v := by
  simp only [performAll_recalls_change]
  cases Rulebook.recalled x qs {} none with
  | none => simp
  | some v =>
    cases (Rulebook.performAll qs {}).2.drops x q with
    | true => simp
    | false => simp [eq_comm]

/-- Three rules, of which the last one has answered an input that no other one answers. -/
def sizeHistory : List (Request Nat) :=
  [.addStatic ⟨"s", "sm", 2⟩,
    .addPattern ⟨"wide", "^wide$", fun x => if x = "wide" then some 9 else none⟩,
    .addPattern ⟨"size", "^size-4$", fun x => if x = "size-4" then some 4 else none⟩,
    .resolve "size-4"]

/-- A static rule that is redefined for this input, one of a new key, and a pattern rule
registered earlier that is redefined to match it. -/
def sizeChanges : List (Request Nat) :=
  [.addStatic ⟨"s", "size-4", 1⟩, .addStatic ⟨"n", "size-4", 1⟩,
    .addPattern ⟨"wide", "4$", fun x => if x = "size-4" then some 1 else none⟩]

/-- After each of these changes the input keeps its old answer, which is not that of the
rules any more. -/
theorem change_without_effect :
    (sizeChanges.map fun change =>
        ((performAll (sizeHistory ++ [change]) {}).2.resolve "size-4").1) =
      [some 4, some 4, some 4] ∧
    (sizeChanges.map fun change =>
        (Rulebook.performAll (sizeHistory ++ [change]) {}).2.answer? "size-4") =
      [some 1, some 1, some 1] := by
  decide

/-! ## New pattern rules -/

/-- A pattern rule of a new key stands behind all others, so that it answers no input that
one of them has answered: where what is remembered is right, it stays right. -/
theorem Coherent.addPattern_new (h : r.Coherent) {rule : PatternRule α}
    (hnew : Table.get? r.patterns rule.key = none) : (r.addPattern rule).1.Coherent := by
  rw [addPattern_fst, hnew]
  refine ⟨⟨h.statics, h.patterns.insert rule, h.tidy⟩, fun {x v} hx => ?_⟩
  have hbehind : Table.values (Table.insert r.patterns rule.key rule) =
      r.patterns.values ++ [rule] := by
    rw [h.patterns.values_insert, Rulebook.register, ← h.patterns.get?_eq_ruleOf?, hnew]
    rfl
  have hanswer : (r.rulebook.answer? x).or (rule.answer? x) = some v := by
    rw [h.entry hx, Option.some_or]
  rw [← hanswer]
  simp [Rulebook.answer?, rulebook, hbehind, List.findSome?_append, Option.or_assoc]

end AliasRules

end AtomicCss
