import AtomicCss.Alias.Rules
import AtomicCss.Proofs.Alias.Memo

/-!
# Rules without a memory

A rulebook answers by its rules alone: the first static rule for the input, or else the
first pattern rule that matches. Rules with a memo answer like a rulebook, as long as no
rule is registered for an input that they still remember afterwards: what a rule can have
answered is forgotten with it.

- `Rulebook`, `Rulebook.answer?`, `Rulebook.register`, `Rulebook.remove`: lists of rules.
- `Request`, `Reply`: what rules are asked, and what rules and rulebooks reply.
- `AliasRules.Session`: requests one after the other.
- `AliasRules.Coherent`: rules that remember what their rulebook answers, which every
  request preserves.
- `AliasRules.Session.memo_invisible`: rules reply like their rulebook.
-/

namespace AtomicCss

variable {α ρ : Type}

/-- The answer of a static rule. -/
def StaticRule.answer? (rule : StaticRule α) (input : String) : Option α :=
  if rule.input = input then some rule.resolved else none

/-- Rules of both sorts in registration order. -/
structure Rulebook (α : Type) where
  statics : List (StaticRule α) := []
  patterns : List (PatternRule α) := []

namespace Rulebook

/-- The first static rule for an input answers, or else the first pattern rule that
matches it. -/
def answer? (b : Rulebook α) (input : String) : Option α :=
  (b.statics.findSome? fun rule => rule.answer? input).or
    (b.patterns.findSome? fun rule => rule.answer? input)

section

variable (key : ρ → String)

/-- The rule of a key. -/
def ruleOf? (rules : List ρ) (k : String) : Option ρ := rules.find? fun rule => key rule = k

/-- Register a rule: in the place of the rule of the same key, or behind all others. -/
def register (rules : List ρ) (rule : ρ) : List ρ :=
  if (ruleOf? key rules (key rule)).isSome then
    rules.map fun old => if key old = key rule then rule else old
  else rules ++ [rule]

/-- Remove the rule of a key from among the others. -/
def remove (rules : List ρ) (k : String) : List ρ := rules.filter fun rule => key rule ≠ k

end

end Rulebook

/-! ## Requests -/

/-- What is asked of rules. -/
inductive Request (α : Type) where
  | addStatic (rule : StaticRule α)
  | addPattern (rule : PatternRule α)
  | removeStatic (key : String)
  | removePattern (key : String)
  | resolve (input : String)

/-- What rules reply: the warnings of a registration, the rule that was removed, or the
answer to an input. -/
inductive Reply (α : Type) where
  | registered (warnings : List Warning)
  | removedStatic (old : Option (StaticRule α))
  | removedPattern (old : Option (PatternRule α))
  | answered (answer : Option α)

namespace Rulebook

/-- What a rulebook replies, and what becomes of it. -/
def perform : Request α → Rulebook α → Reply α × Rulebook α
  | .addStatic rule, b =>
    (.registered ((ruleOf? StaticRule.key b.statics rule.key).toList.map fun old =>
        .staticRedefined rule.key old.input),
      { b with statics := register StaticRule.key b.statics rule })
  | .addPattern rule, b =>
    (.registered ((ruleOf? PatternRule.key b.patterns rule.key).toList.map fun old =>
        .patternRedefined rule.key old.pattern),
      { b with patterns := register PatternRule.key b.patterns rule })
  | .removeStatic key, b =>
    (.removedStatic (ruleOf? StaticRule.key b.statics key),
      { b with statics := remove StaticRule.key b.statics key })
  | .removePattern key, b =>
    (.removedPattern (ruleOf? PatternRule.key b.patterns key),
      { b with patterns := remove PatternRule.key b.patterns key })
  | .resolve input, b => (.answered (b.answer? input), b)

/-- What a rulebook replies to requests one after the other. -/
def performAll : List (Request α) → Rulebook α → List (Reply α) × Rulebook α
  | [], b => ([], b)
  | q :: qs, b => ((b.perform q).1 :: (performAll qs (b.perform q).2).1,
      (performAll qs (b.perform q).2).2)

end Rulebook

namespace AliasRules

/-- What rules with a memo reply, and what becomes of them. -/
def perform : Request α → AliasRules α → Reply α × AliasRules α
  | .addStatic rule, r => (.registered (r.addStatic rule).2, (r.addStatic rule).1)
  | .addPattern rule, r => (.registered (r.addPattern rule).2, (r.addPattern rule).1)
  | .removeStatic key, r => (.removedStatic (r.removeStatic key).1, (r.removeStatic key).2)
  | .removePattern key, r => (.removedPattern (r.removePattern key).1, (r.removePattern key).2)
  | .resolve input, r => (.answered (r.resolve input).1, (r.resolve input).2)

/-- A rule that is registered answers no input that is still remembered afterwards. -/
def Admits (r : AliasRules α) : Request α → Prop
  | .addStatic rule => ∀ x ∈ (r.addStatic rule).1.memo.inputs, rule.answer? x = none
  | .addPattern rule => ∀ x ∈ (r.addPattern rule).1.memo.inputs, rule.answer? x = none
  | _ => True

/-- Requests one after the other, each of them admitted, with the replies. -/
inductive Session : AliasRules α → List (Request α) → List (Reply α) → AliasRules α → Prop
  | nil (r : AliasRules α) : Session r [] [] r
  | cons {r r' : AliasRules α} {q : Request α} {qs : List (Request α)} {as : List (Reply α)} :
      r.Admits q → Session (r.perform q).2 qs as r' →
      Session r (q :: qs) ((r.perform q).1 :: as) r'

/-- The rules of both sorts, without what is remembered. -/
def rulebook (r : AliasRules α) : Rulebook α := ⟨r.statics.values, r.patterns.values⟩

end AliasRules

/-! ## Tables of rules -/

/-- A table in which every rule stands under its own key, and no key stands twice. -/
structure Keyed (key : ρ → String) (t : Table String ρ) : Prop where
  once : (Table.keys t).Nodup
  own : ∀ e ∈ t, key e.2 = e.1

namespace Keyed

open Rulebook

variable {key : ρ → String} {t : Table String ρ} {rule old : ρ}

theorem nil : Keyed key [] := ⟨List.nodup_nil, fun _ h => (nomatch h)⟩

theorem tail {e : String × ρ} (h : Keyed key (e :: t)) : Keyed key t :=
  ⟨(List.nodup_cons.1 h.once).2, fun e he => h.own e (List.mem_cons_of_mem _ he)⟩

/-- No other rule has the key of the first one. -/
theorem head_ne {e : String × ρ} (h : Keyed key (e :: t)) (hold : old ∈ Table.values t) :
    key old ≠ e.1 := by
  obtain ⟨e', he', rfl⟩ := List.mem_map.1 hold
  rw [h.own e' (List.mem_cons_of_mem _ he')]
  exact fun heq => (List.nodup_cons.1 h.once).1 (List.mem_map.2 ⟨e', he', heq⟩)

theorem get?_eq_ruleOf? (h : Keyed key t) (k : String) :
    Table.get? t k = ruleOf? key (Table.values t) k := by
  induction t with
  | nil => rfl
  | cons e t ih =>
    have hkey : key e.2 = e.1 := h.own e List.mem_cons_self
    show (if e.1 = k then some e.2 else Table.get? t k) = _
    rw [ih h.tail]
    by_cases hk : e.1 = k <;> simp [ruleOf?, Table.values, hkey, hk]

/-- A rule is the rule of its key. -/
theorem get?_of_mem (h : Keyed key t) (hrule : rule ∈ Table.values t) :
    Table.get? t (key rule) = some rule := by
  obtain ⟨e, he, rfl⟩ := List.mem_map.1 hrule
  rw [h.own e he]
  exact (Table.get?_eq_some_iff h.once).2 he

/-- Registration keeps the order of the rules. -/
theorem values_insert (h : Keyed key t) (rule : ρ) :
    Table.values (Table.insert t (key rule) rule) = register key (Table.values t) rule := by
  rw [register, ← h.get?_eq_ruleOf?]
  induction t with
  | nil => rfl
  | cons e t ih =>
    have hkey : key e.2 = e.1 := h.own e List.mem_cons_self
    by_cases hk : e.1 = key rule
    · have htail : (Table.values t).map (fun old => if key old = key rule then rule else old) =
          Table.values t :=
        (List.map_congr_left fun old hold => if_neg (hk ▸ h.head_ne hold)).trans (List.map_id _)
      simpa [Table.insert, Table.get?, Table.values, hkey, hk] using htail.symm
    · have hinsert : Table.insert (e :: t) (key rule) rule =
          e :: Table.insert t (key rule) rule := if_neg hk
      have hget : Table.get? (e :: t) (key rule) = Table.get? t (key rule) := if_neg hk
      rw [hinsert, hget]
      show e.2 :: Table.values (Table.insert t (key rule) rule) = _
      rw [ih h.tail]
      split <;> simp [Table.values, hkey, hk]

/-- Removal keeps the order of the other rules. -/
theorem values_erase (h : Keyed key t) (k : String) :
    Table.values (Table.erase t k) = remove key (Table.values t) k := by
  induction t with
  | nil => rfl
  | cons e t ih =>
    have hkey : key e.2 = e.1 := h.own e List.mem_cons_self
    by_cases hk : e.1 = k
    · have htail : (Table.values t).filter (fun rule => key rule ≠ k) = Table.values t :=
        List.filter_eq_self.2 fun old hold => decide_eq_true (hk ▸ h.head_ne hold)
      simpa [Table.erase, remove, Table.values, hkey, hk] using htail.symm
    · have herase : Table.erase (e :: t) k = e :: Table.erase t k := if_neg hk
      rw [herase]
      show e.2 :: Table.values (Table.erase t k) = _
      rw [ih h.tail]
      simp [remove, Table.values, hkey, hk]

theorem erase (h : Keyed key t) (k : String) : Keyed key (Table.erase t k) where
  once := h.once.sublist ((Table.erase_sublist t k).map Prod.fst)
  own := fun e he => h.own e ((Table.erase_sublist t k).subset he)

theorem insert (h : Keyed key t) (rule : ρ) : Keyed key (Table.insert t (key rule) rule) where
  once := by
    rw [Table.keys_insert]
    split
    · exact h.once
    · next hk => exact List.concat_eq_append ▸ h.once.concat hk
  own := by
    intro e he
    rcases Table.mem_of_insert he with rfl | he
    · rfl
    · exact h.own e he

end Keyed

/-! ## Answers after a change -/

namespace Rulebook

variable {key : ρ → String} {rules : List ρ} {rule : ρ} {f : ρ → Option α} {k : String}

/-- Where neither the old rules of a key nor the new one answer, all goes on as before. -/
theorem findSome?_register (hold : ∀ old ∈ rules, key old = key rule → f old = none)
    (hrule : f rule = none) : (register key rules rule).findSome? f = rules.findSome? f := by
  have hplace : (rules.map fun old => if key old = key rule then rule else old).findSome? f =
      rules.findSome? f := by
    induction rules with
    | nil => rfl
    | cons old rules ih =>
      have hhead : f (if key old = key rule then rule else old) = f old := by
        split
        · next hk => rw [hrule, hold old List.mem_cons_self hk]
        · rfl
      rw [List.map_cons, List.findSome?_cons, List.findSome?_cons, hhead,
        ih fun old' hmem => hold old' (List.mem_cons_of_mem _ hmem)]
  unfold register
  split
  · exact hplace
  · simp [List.findSome?_append, hrule]

/-- Rules that do not answer can be removed. -/
theorem findSome?_remove (hold : ∀ old ∈ rules, key old = k → f old = none) :
    (remove key rules k).findSome? f = rules.findSome? f := by
  induction rules with
  | nil => rfl
  | cons old rules ih =>
    have ih := ih fun old' hmem => hold old' (List.mem_cons_of_mem _ hmem)
    by_cases hk : key old = k
    · have hrest : remove key (old :: rules) k = remove key rules k := by simp [remove, hk]
      rw [hrest, ih, List.findSome?_cons, hold old List.mem_cons_self hk]
    · have hrest : remove key (old :: rules) k = old :: remove key rules k := by
        simp [remove, hk]
      rw [hrest, List.findSome?_cons, List.findSome?_cons, ih]

end Rulebook

/-! ## Changes of the rules -/

/-- Forget the inputs that an old rule answers, if there is one. -/
def Memo.without (m : Memo α) : Option (String → Option α) → Memo α
  | some answer? => m.evict fun x => (answer? x).isSome
  | none => m

theorem Memo.without_eq_evict (m : Memo α) (old : Option (String → Option α)) :
    m.without old = m.evict fun x => (old.bind (· x)).isSome := by
  cases old with
  | none => simp [without, evict, clear]
  | some answer? => rfl

theorem Memo.Tidy.without {m : Memo α} (hm : m.Tidy) (old : Option (String → Option α)) :
    (m.without old).Tidy := by
  rw [Memo.without_eq_evict]
  exact hm.evict

theorem Memo.Tidy.get?_without {m : Memo α} (hm : m.Tidy) (old : Option (String → Option α))
    (x : String) :
    (m.without old).get? x = if (old.bind (· x)).isSome then none else m.get? x := by
  rw [Memo.without_eq_evict]
  exact hm.get?_evict

/-- An input that is still remembered is not one that the old rule answers. -/
theorem Memo.answer_of_mem_without {m : Memo α} {old : Option (String → Option α)} {x : String}
    (hx : x ∈ (m.without old).inputs) : old.bind (· x) = none := by
  rw [Memo.without_eq_evict] at hx
  exact Option.not_isSome_iff_eq_none.1 (Bool.eq_false_iff.1 (Memo.mem_inputs_evict.1 hx).2)

namespace Keyed

open Rulebook

variable {key : ρ → String} {t : Table String ρ} {f : ρ → String → Option α} {x : String}

theorem answer_eq_none (h : Keyed key t) {old : ρ} (hold : old ∈ Table.values t) {k : String}
    (hk : key old = k) (hx : ((Table.get? t k).map f).bind (· x) = none) : f old x = none := by
  subst hk
  rwa [h.get?_of_mem hold] at hx

/-- Where a rule is registered, the answer to an input stays that neither the old rule of the
key answers nor the new one. -/
theorem findSome?_insert (h : Keyed key t) {rule : ρ} (hrule : f rule x = none)
    (hx : ((Table.get? t (key rule)).map f).bind (· x) = none) :
    (Table.values (Table.insert t (key rule) rule)).findSome? (f · x) =
      (Table.values t).findSome? (f · x) := by
  rw [h.values_insert]
  exact findSome?_register (fun _ hold hk => h.answer_eq_none hold hk hx) hrule

/-- So it does where a rule is removed that does not answer the input. -/
theorem findSome?_erase (h : Keyed key t) {k : String}
    (hx : ((Table.get? t k).map f).bind (· x) = none) :
    (Table.values (Table.erase t k)).findSome? (f · x) = (Table.values t).findSome? (f · x) := by
  rw [h.values_erase]
  exact findSome?_remove fun _ hold hk => h.answer_eq_none hold hk hx

end Keyed

theorem StaticRule.isSome_answer? (rule : StaticRule α) (x : String) :
    (rule.answer? x).isSome = decide (x = rule.input) := by
  by_cases hx : rule.input = x
  · simp [StaticRule.answer?, hx]
  · simp [StaticRule.answer?, hx, Ne.symm hx]

namespace AliasRules

variable {r r' : AliasRules α}

theorem addStatic_fst (r : AliasRules α) (rule : StaticRule α) :
    (r.addStatic rule).1 =
      { r with
        statics := Table.insert r.statics rule.key rule
        memo := r.memo.without ((Table.get? r.statics rule.key).map StaticRule.answer?) } := by
  rw [addStatic]
  cases Table.get? r.statics rule.key with
  | none => rfl
  | some old => simp [forget, Memo.without, StaticRule.isSome_answer?]

theorem addPattern_fst (r : AliasRules α) (rule : PatternRule α) :
    (r.addPattern rule).1 =
      { r with
        patterns := Table.insert r.patterns rule.key rule
        memo := r.memo.without ((Table.get? r.patterns rule.key).map PatternRule.answer?) } := by
  rw [addPattern]
  cases Table.get? r.patterns rule.key <;> rfl

theorem removeStatic_snd (r : AliasRules α) (k : String) :
    (r.removeStatic k).2 =
      { r with
        statics := Table.erase r.statics k
        memo := r.memo.without ((Table.get? r.statics k).map StaticRule.answer?) } := by
  rw [removeStatic]
  cases h : Table.get? r.statics k with
  | none => rw [Table.erase_of_notMem_keys (Table.get?_eq_none_iff.1 h)]; rfl
  | some old => simp [forget, Memo.without, StaticRule.isSome_answer?]

theorem removePattern_snd (r : AliasRules α) (k : String) :
    (r.removePattern k).2 =
      { r with
        patterns := Table.erase r.patterns k
        memo := r.memo.without ((Table.get? r.patterns k).map PatternRule.answer?) } := by
  rw [removePattern]
  cases h : Table.get? r.patterns k with
  | none => rw [Table.erase_of_notMem_keys (Table.get?_eq_none_iff.1 h)]; rfl
  | some old => rfl

theorem resolve_rulebook (r : AliasRules α) (x : String) :
    (r.resolve x).2.rulebook = r.rulebook := by
  rw [resolve]
  cases r.memo.get? x with
  | some v => rfl
  | none => cases r.lookup? x <;> rfl

/-! ## Rules in good order -/

/-- Rules that stand under their keys, and a memo with an answer for each of its inputs. -/
structure Filed (r : AliasRules α) : Prop where
  statics : Keyed StaticRule.key r.statics
  patterns : Keyed PatternRule.key r.patterns
  tidy : r.memo.Tidy

theorem filed_empty : Filed ({} : AliasRules α) := ⟨Keyed.nil, Keyed.nil, Memo.tidy_empty⟩

/-- A request for a change is replied to like by the rulebook, which changes like the rules. -/
theorem Filed.perform_eq (h : r.Filed) {q : Request α} (hq : ∀ x, q ≠ .resolve x) :
    r.rulebook.perform q = ((r.perform q).1, (r.perform q).2.rulebook) := by
  cases q with
  | addStatic rule =>
    simp only [Rulebook.perform, AliasRules.perform, rulebook, addStatic_fst,
      h.statics.values_insert, ← h.statics.get?_eq_ruleOf?]
    rw [AliasRules.addStatic]
    cases Table.get? r.statics rule.key <;> rfl
  | addPattern rule =>
    simp only [Rulebook.perform, AliasRules.perform, rulebook, addPattern_fst,
      h.patterns.values_insert, ← h.patterns.get?_eq_ruleOf?]
    rw [AliasRules.addPattern]
    cases Table.get? r.patterns rule.key <;> rfl
  | removeStatic k =>
    simp only [Rulebook.perform, AliasRules.perform, rulebook, removeStatic_snd,
      h.statics.values_erase, ← h.statics.get?_eq_ruleOf?]
    rw [AliasRules.removeStatic]
    cases Table.get? r.statics k <;> rfl
  | removePattern k =>
    simp only [Rulebook.perform, AliasRules.perform, rulebook, removePattern_snd,
      h.patterns.values_erase, ← h.patterns.get?_eq_ruleOf?]
    rw [AliasRules.removePattern]
    cases Table.get? r.patterns k <;> rfl
  | resolve x => exact absurd rfl (hq x)

/-- Whatever is remembered, rules change like their rulebook. -/
theorem Filed.rulebook_perform (h : r.Filed) (q : Request α) :
    (r.perform q).2.rulebook = (r.rulebook.perform q).2 := by
  cases q with
  | resolve x => exact r.resolve_rulebook x
  | _ => rw [h.perform_eq (by nofun)]

theorem Filed.perform (h : r.Filed) (q : Request α) : (r.perform q).2.Filed := by
  cases q with
  | addStatic rule =>
    rw [AliasRules.perform, addStatic_fst]
    exact ⟨h.statics.insert rule, h.patterns, h.tidy.without _⟩
  | addPattern rule =>
    rw [AliasRules.perform, addPattern_fst]
    exact ⟨h.statics, h.patterns.insert rule, h.tidy.without _⟩
  | removeStatic k =>
    rw [AliasRules.perform, removeStatic_snd]
    exact ⟨h.statics.erase k, h.patterns, h.tidy.without _⟩
  | removePattern k =>
    rw [AliasRules.perform, removePattern_snd]
    exact ⟨h.statics, h.patterns.erase k, h.tidy.without _⟩
  | resolve x =>
    rw [AliasRules.perform, resolve]
    cases r.memo.get? x with
    | some v => exact h
    | none =>
      cases r.lookup? x with
      | none => exact h
      | some v => exact ⟨h.statics, h.patterns, h.tidy.set x v⟩

/-! ## Coherence -/

/-- Rules that remember nothing but what their rulebook answers. -/
structure Coherent (r : AliasRules α) : Prop extends Filed r where
  entry : ∀ {x v}, r.memo.get? x = some v → r.rulebook.answer? x = some v

theorem coherent_empty : Coherent ({} : AliasRules α) := ⟨filed_empty, fun h => (nomatch h)⟩

theorem lookup?_eq (r : AliasRules α) (x : String) : r.lookup? x = r.rulebook.answer? x := by
  have hstatics (rules : List (StaticRule α)) : (rules.findSome? fun rule => rule.answer? x) =
      (rules.find? fun rule => rule.input = x).map StaticRule.resolved := by
    induction rules with
    | nil => rfl
    | cons rule rules ih =>
      rw [List.findSome?_cons, List.find?_cons, ih, StaticRule.answer?]
      by_cases hx : rule.input = x <;> simp [hx]
  rw [lookup?, Rulebook.answer?, hstatics]
  show _ = Option.or (Option.map _ (List.find? _ r.statics.values)) _
  cases List.find? (fun rule => decide (rule.input = x)) r.statics.values <;> rfl

/-- A change of the rules after which the inputs still remembered have their old answers. -/
theorem Coherent.change (h : r.Coherent) {old : Option (String → Option α)}
    (hmemo : r'.memo = r.memo.without old) (hstatics : Keyed StaticRule.key r'.statics)
    (hpatterns : Keyed PatternRule.key r'.patterns)
    (hsame : ∀ x ∈ r'.memo.inputs, r'.rulebook.answer? x = r.rulebook.answer? x) :
    r'.Coherent where
  statics := hstatics
  patterns := hpatterns
  tidy := hmemo ▸ h.tidy.without old
  entry := by
    intro x v hx
    rw [hsame x (Memo.mem_inputs_of_get? hx)]
    rw [hmemo, h.tidy.get?_without] at hx
    split at hx
    · cases hx
    · exact h.entry hx

theorem Coherent.addStatic (h : r.Coherent) {rule : StaticRule α}
    (hadmits : r.Admits (.addStatic rule)) : (r.addStatic rule).1.Coherent := by
  rw [Admits, addStatic_fst] at hadmits
  rw [addStatic_fst]
  refine h.change rfl (h.statics.insert rule) h.patterns fun x hx => ?_
  exact congrArg (Option.or · _)
    (h.statics.findSome?_insert (hadmits x hx) (Memo.answer_of_mem_without hx))

theorem Coherent.addPattern (h : r.Coherent) {rule : PatternRule α}
    (hadmits : r.Admits (.addPattern rule)) : (r.addPattern rule).1.Coherent := by
  rw [Admits, addPattern_fst] at hadmits
  rw [addPattern_fst]
  refine h.change rfl h.statics (h.patterns.insert rule) fun x hx => ?_
  exact congrArg (Option.or _)
    (h.patterns.findSome?_insert (hadmits x hx) (Memo.answer_of_mem_without hx))

theorem Coherent.removeStatic (h : r.Coherent) (k : String) :
    (r.removeStatic k).2.Coherent := by
  rw [removeStatic_snd]
  refine h.change rfl (h.statics.erase k) h.patterns fun x hx => ?_
  exact congrArg (Option.or · _) (h.statics.findSome?_erase (Memo.answer_of_mem_without hx))

theorem Coherent.removePattern (h : r.Coherent) (k : String) :
    (r.removePattern k).2.Coherent := by
  rw [removePattern_snd]
  refine h.change rfl h.statics (h.patterns.erase k) fun x hx => ?_
  exact congrArg (Option.or _) (h.patterns.findSome?_erase (Memo.answer_of_mem_without hx))

/-- A resolution is the answer of the rulebook, whether it is remembered or looked up. -/
theorem Coherent.resolve (h : r.Coherent) (x : String) :
    (r.resolve x).1 = r.rulebook.answer? x ∧ (r.resolve x).2.rulebook = r.rulebook ∧
      (r.resolve x).2.Coherent := by
  rw [AliasRules.resolve]
  cases hget : r.memo.get? x with
  | some v => exact ⟨(h.entry hget).symm, rfl, h⟩
  | none =>
    rw [r.lookup?_eq x]
    cases hanswer : r.rulebook.answer? x with
    | none => exact ⟨rfl, rfl, h⟩
    | some v =>
      refine ⟨rfl, rfl, ⟨h.statics, h.patterns, h.tidy.set x v⟩, fun {y w} hy => ?_⟩
      by_cases hyx : y = x
      · subst hyx
        exact hanswer.trans ((Memo.get?_set_self h.tidy.toWellPlaced y v).symm.trans hy)
      · exact h.entry ((Memo.get?_set_of_ne h.tidy.toWellPlaced v hyx).symm.trans hy)

/-- A request keeps what is remembered true. -/
theorem Coherent.perform (h : r.Coherent) {q : Request α} (hadmits : r.Admits q) :
    (r.perform q).2.Coherent := by
  cases q with
  | addStatic rule => exact h.addStatic hadmits
  | addPattern rule => exact h.addPattern hadmits
  | removeStatic k => exact h.removeStatic k
  | removePattern k => exact h.removePattern k
  | resolve x => exact (h.resolve x).2.2

/-- The reply to a request is that of the rulebook, which changes like the rules. -/
theorem Coherent.rulebook_perform (h : r.Coherent) (q : Request α) :
    r.rulebook.perform q = ((r.perform q).1, (r.perform q).2.rulebook) := by
  cases q with
  | resolve x =>
    obtain ⟨hanswer, hrulebook, -⟩ := h.resolve x
    exact Prod.ext (congrArg Reply.answered hanswer.symm) hrulebook.symm
  | _ => exact h.perform_eq (by nofun)

/-! ## Sessions -/

section

variable {qs : List (Request α)} {as : List (Reply α)}

/-- Coherence is kept from request to request, and with it every reply is the right one. -/
theorem Session.coherent (h : Session r qs as r') (hr : r.Coherent) :
    r.rulebook.performAll qs = (as, r'.rulebook) ∧ r'.Coherent := by
  induction h with
  | nil r => exact ⟨rfl, hr⟩
  | cons hadmits _ ih =>
    obtain ⟨hall, hr'⟩ := ih (hr.perform hadmits)
    refine ⟨?_, hr'⟩
    rw [Rulebook.performAll, hr.rulebook_perform]
    simp only [hall]

/-- Rules reply like their rulebook to any requests they admit, and never remember an input
that no rule answers. -/
theorem Session.memo_invisible (h : Session {} qs as r) :
    Rulebook.performAll qs {} = (as, r.rulebook) ∧
      ∀ x, r.rulebook.answer? x = none → x ∉ r.memo.inputs := by
  obtain ⟨hreplies, hr⟩ := h.coherent coherent_empty
  refine ⟨hreplies, fun x hx hmem => ?_⟩
  obtain ⟨v, hv⟩ := hr.tidy.filled hmem
  cases hx.symm.trans (hr.entry hv)

end

/-- Two rules for one input, of which the first is redefined and the second removed. -/
def sizeRequests : List (Request Nat) :=
  [.addStatic ⟨"s", "sm", 4⟩,
    .addPattern ⟨"any", "m$", fun x => if x = "sm" ∨ x = "m" then some x.length else none⟩,
    .resolve "sm", .resolve "m", .addStatic ⟨"s", "xs", 2⟩, .resolve "sm",
    .removePattern "any", .resolve "sm"]

theorem Session.memo_invisible_sizes : ∃ as r, Session {} sizeRequests as r ∧
    Rulebook.performAll sizeRequests {} = (as, r.rulebook) ∧
    (∀ x, r.rulebook.answer? x = none → x ∉ r.memo.inputs) ∧
    (as.filterMap fun | .answered answer => some answer | _ => none) =
      [some 4, some 1, some 2, none] := by
  have hsession : ∃ as r, Session {} sizeRequests as r ∧
      (as.filterMap fun | .answered answer => some answer | _ => none) =
        [some 4, some 1, some 2, none] := by
    -- nothing is remembered when the first two rules come, and only "m" when the third one does
    refine ⟨_, _, .cons (q := .addStatic _) ?_ <| .cons (q := .addPattern _) ?_ <|
      .cons trivial <| .cons trivial <| .cons (q := .addStatic _) ?_ <|
      .cons trivial <| .cons trivial <| .cons trivial <| .nil _, ?_⟩
    · exact fun x hx => (nomatch hx)
    · exact fun x hx => (nomatch hx)
    · show ∀ x ∈ ["m"], _
      decide
    · decide
  obtain ⟨as, r, hsession, hreplies⟩ := hsession
  obtain ⟨hperform, hmemo⟩ := hsession.memo_invisible
  exact ⟨as, r, hsession, hperform, hmemo, hreplies⟩

end AliasRules

end AtomicCss
