import AtomicCss.Proofs.Alias.History
import AtomicCss.Proofs.Alias.Recall
import AtomicCss.Proofs.Meaning

/-!
# What removed rules leave behind

A rule that is removed takes the answers to its own inputs with it, and nothing else. The
expansion of another alias that was made with its help stays remembered as the answer of
that alias.

- `AliasRules.means_unfold_of_alike`: answers may be replaced by whole unfoldings.
- `AliasRules.Grounded`: what is remembered is the answer of the rules, or nothing in it
  has an answer any more. Expansions and removals keep it so.
- `AliasRules.Pruned`: what rules can have become while they were asked for expansions and
  some of them were removed.
- `AliasRules.Outdated`: what is remembered of an input is not what it stands for.
- `AliasRules.Pruned.aftermath`: which inputs are answered as if nothing was remembered.
-/

namespace AtomicCss

variable {α β ρ : Type}

/-- A request to remove a rule. -/
def Request.Removes : Request α → Prop
  | .removeStatic _ | .removePattern _ => True
  | _ => False

namespace Rulebook

variable {key : ρ → String} {rules : List ρ} {f : ρ → Option α} {k x : String} {b : Rulebook α}
  {q : Request α}

/-- Where the rule of a key answers, some rule answers. -/
theorem findSome?_ne_none_of_ruleOf? (h : ((ruleOf? key rules k).bind f).isSome) :
    rules.findSome? f ≠ none := by
  obtain ⟨v, hv⟩ := Option.isSome_iff_exists.1 h
  obtain ⟨rule, hrule, hv⟩ := Option.bind_eq_some_iff.1 hv
  intro hnone
  rw [List.findSome?_eq_none_iff.1 hnone rule (List.mem_of_find?_eq_some hrule)] at hv
  cases hv

/-- Only an input that has an answer is forgotten with a rule. -/
theorem answer?_ne_none_of_drops (h : b.drops x q = true) : b.answer? x ≠ none := by
  rw [answer?, ne_eq, Option.or_eq_none_iff, not_and_or]
  cases q with
  | addStatic => exact .inl (findSome?_ne_none_of_ruleOf? h)
  | removeStatic => exact .inl (findSome?_ne_none_of_ruleOf? h)
  | addPattern => exact .inr (findSome?_ne_none_of_ruleOf? h)
  | removePattern => exact .inr (findSome?_ne_none_of_ruleOf? h)
  | resolve => cases h

theorem recallAfter_of_removes (hq : q.Removes) (b : Rulebook α) (x : String) (v : Option α) :
    b.recallAfter x v q = if b.drops x q then none else v := by
  cases q with
  | resolve => exact hq.elim
  | _ => rfl

end Rulebook

namespace AliasRules

open Reading Relation

/-! ## Unfolded answers in the place of others -/

section Alike

variable {kind : AliasKind} {name? : α → Option String}
  {lookup? lookup₁? lookup₂? : String → Option (List α)} {b : Nat} {path : List String}
  {x : String}

/-- An answer is its own unfolding if nothing in it has an answer. -/
theorem Unfolds.of_settled {v : List α} (hx : lookup? x = some v)
    (hv : ∀ a ∈ v, ∀ name, name? a = some name → lookup? name = none) :
    Unfolds kind name? lookup? x v := by
  refine ⟨2, gives_unfold_ok_some.2 ⟨List.not_mem_nil, v, hx, ?_⟩⟩
  refine Walk.collect_singletons fun a ha => ?_
  show Gives _ _
  rw [gives_unfoldElement_ok]
  cases hname : name? a with
  | none => exact .inl ⟨rfl, rfl⟩
  | some name =>
    have hnone := hv a ha name hname
    refine .inr ⟨name, none, rfl, gives_unfold_ok_none.2 ⟨?_, hnone⟩, rfl⟩
    rintro hmem
    obtain rfl := List.mem_singleton.1 hmem
    rw [hx] at hnone
    cases hnone

variable (kind name? lookup₁? lookup₂?) in
/-- An input has the same answer twice, or the same unfolding. -/
def Alike (x : String) : Prop :=
  lookup₁? x = lookup₂? x ∨
    ∃ v, Unfolds kind name? lookup₁? x v ∧ Unfolds kind name? lookup₂? x v

variable (name? lookup₁? lookup₂?) in
/-- Both answers to an input mention another one. -/
def BothMention (x y : String) : Prop := Mentions name? lookup₁? x y ∧ Mentions name? lookup₂? x y

/-- Where all inputs that can be reached are alike, an unfolding by the first answers is one
by the second answers. -/
theorem means_unfold_of_alike {res : Except Error (Option (List α))}
    (halike : ∀ y, ReflTransGen (BothMention name? lookup₁? lookup₂?) x y →
      Alike kind name? lookup₁? lookup₂? y)
    (hpath₁ : LeadTo name? lookup₁? path x) (hpath₂ : LeadTo name? lookup₂? path x)
    (h : Gives (unfold kind name? lookup₁? b path x) res) :
    Means (fun c => unfold kind name? lookup₂? c path x) res := by
  induction b generalizing path x res with
  | zero => exact absurd h not_gives_unfold_zero
  | succ b ih =>
    rcases halike x .refl with hsame | ⟨v, hv₁, hv₂⟩
    · rcases gives_unfold_succ.1 h with
        ⟨hmem, rfl⟩ | ⟨hmem, hnone, rfl⟩ | ⟨hmem, answer, full, hanswer, hfull, rfl⟩
      · exact ⟨1, gives_unfold_succ.2 (.inl ⟨hmem, rfl⟩)⟩
      · exact ⟨1, gives_unfold_ok_none.2 ⟨hmem, hsame ▸ hnone⟩⟩
      · have hanswer₂ : lookup₂? x = some answer := hsame ▸ hanswer
        have helement (a) (ha : a ∈ answer) (res : Except Error (List α))
            (h : Gives (unfoldElement name?
              (unfold kind name? lookup₁? b (path ++ [x])) a) res) :
            Means (fun c => unfoldElement name?
              (unfold kind name? lookup₂? c (path ++ [x])) a) res := by
          rcases gives_unfoldElement.1 h with ⟨hname, rfl⟩ | ⟨y, inner, hname, hinner, rfl⟩
          · exact ⟨0, gives_unfoldElement.2 (.inl ⟨hname, rfl⟩)⟩
          · have hy₁ : Mentions name? lookup₁? x y := ⟨answer, hanswer, a, ha, hname⟩
            have hy₂ : Mentions name? lookup₂? x y := ⟨answer, hanswer₂, a, ha, hname⟩
            obtain ⟨c, hc⟩ := ih (fun z hz => halike z (.head ⟨hy₁, hy₂⟩ hz))
              (hpath₁.mentions hy₁) (hpath₂.mentions hy₂) hinner
            exact ⟨c, gives_unfoldElement.2 (.inr ⟨y, inner, hname, hc, rfl⟩)⟩
        obtain ⟨c, hc⟩ := means_collect
          (rising_unfoldElement fun y => rising_unfold (path ++ [x]) y) helement hfull
        exact ⟨c + 1,
          gives_unfold_succ.2 (.inr (.inr ⟨hmem, answer, full, hanswer₂, hc, rfl⟩))⟩
    · -- the unfolding is the same, inside the path as well
      obtain ⟨c, hc⟩ := hv₁.inside hpath₁
      rw [(rising_unfold path x).unique h hc]
      exact hv₂.inside hpath₂

theorem Alike.symm (h : Alike kind name? lookup₁? lookup₂? x) :
    Alike kind name? lookup₂? lookup₁? x :=
  h.imp Eq.symm fun ⟨v, hv₁, hv₂⟩ => ⟨v, hv₂, hv₁⟩

/-- So the unfoldings of an input mean the same if all inputs below it are alike. -/
theorem means_unfold_iff_of_alike {res : Except Error (Option (List α))}
    (halike : ∀ y, ReflTransGen (Mentions name? lookup₂?) x y →
      Alike kind name? lookup₁? lookup₂? y) :
    Means (fun c => unfold kind name? lookup₁? c [] x) res ↔
      Means (fun c => unfold kind name? lookup₂? c [] x) res := by
  constructor
  · rintro ⟨b, hb⟩
    refine means_unfold_of_alike (fun y hy => halike y ?_) (.nil _ _ _) (.nil _ _ _) hb
    exact ReflTransGen.mono (fun _ _ h => h.2) _ _ hy
  · rintro ⟨b, hb⟩
    refine means_unfold_of_alike (fun y hy => (halike y ?_).symm) (.nil _ _ _) (.nil _ _ _) hb
    exact ReflTransGen.mono (fun _ _ h => h.1) _ _ hy

theorem Unfolds.of_alike {v : List α} (h : Unfolds kind name? lookup₁? x v)
    (halike : ∀ y, ReflTransGen (Mentions name? lookup₂?) x y →
      Alike kind name? lookup₁? lookup₂? y) : Unfolds kind name? lookup₂? x v :=
  (means_unfold_iff_of_alike halike).1 h

end Alike

/-! ## What is remembered -/

section Grounded

variable {kind : AliasKind} {name? : α → Option String} {r r' : AliasRules (List α)}
  {b : Nat} {path : List String} {x : String}

/-- Rules remember answers of theirs, and lists in which nothing has an answer, both only
for inputs that they answer. -/
structure Grounded (name? : α → Option String) (r : AliasRules (List α)) : Prop where
  filed : r.Filed
  answered : ∀ {x v}, r.memo.get? x = some v → r.lookup? x ≠ none
  entry : ∀ {x v}, r.memo.get? x = some v → r.lookup? x = some v ∨
    ∀ a ∈ v, ∀ name, name? a = some name → r.lookup? name = none

/-- Whatever is remembered, rules are sound for the answers that they give themselves. -/
theorem sound_of_placed (kind : AliasKind) (name? : α → Option String)
    (h : r.memo.WellPlaced) : Sound kind name? (fun x => (r.resolve x).1) r where
  lookup := by
    intro x hx
    show r.lookup? x = (r.resolve x).1
    rw [fst_resolve, hx, lookup?_eq, Option.none_or]
  placed := h
  entry := by
    intro x v hx
    refine .inl ?_
    show (r.resolve x).1 = some v
    rw [fst_resolve, hx, Option.some_or]
  below := by
    -- what is mentioned by an answer that is unfolded has none
    rintro x y ⟨full, hx, hfull⟩ ⟨answer, hanswer, a, ha, hname⟩ hy
    have hx' : (r.resolve x).1 = some full := by rw [fst_resolve, hx, Option.some_or]
    obtain rfl := Option.some.inj (hx'.symm.trans hanswer)
    exact absurd (hfull.settled ha hname) hy

theorem Grounded.fst_resolve_eq_none_iff (h : Grounded name? r) (x : String) :
    (r.resolve x).1 = none ↔ r.lookup? x = none := by
  rw [fst_resolve, ← lookup?_eq]
  cases hx : r.memo.get? x with
  | none => rfl
  | some v => simpa using h.answered hx

/-- What rules remember stands for itself if it is not the answer of a rule. -/
theorem Grounded.unfolds_of_get? (h : Grounded name? r) {v : List α}
    (hx : r.memo.get? x = some v) (hv : r.lookup? x ≠ some v) :
    Unfolds kind name? (fun y => (r.resolve y).1) x v := by
  refine .of_settled (by rw [fst_resolve, hx]; rfl) fun a ha name hname => ?_
  rw [h.fst_resolve_eq_none_iff]
  exact (h.entry hx).resolve_left hv a ha name hname

/-! ### Expansions -/

/-- What holds of rules whatever they remember besides is kept by expansions. -/
theorem ensures_expand {I : AliasRules (List α) → Prop}
    (hI : ∀ r x v, I r → I (r.remember x v)) (b : Nat) (path : List String) (x : String) :
    Walk.Ensures I (expand kind name? b path x) fun _ => True := by
  induction b generalizing path x with
  | zero => exact Walk.ensures_unfinished
  | succ b ih =>
    intro r res r' hr hrun
    refine ⟨?_, fun _ _ => trivial⟩
    by_cases hmem : x ∈ path
    · rw [expand_succ_run, if_pos hmem] at hrun
      obtain ⟨-, rfl⟩ := Prod.mk.inj (Option.some.inj hrun)
      exact hr
    have hresolve : I (r.resolve x).2 := by
      rw [resolve]
      cases r.memo.get? x with
      | some v => exact hr
      | none =>
        cases r.lookup? x with
        | none => exact hr
        | some v => exact hI r x v hr
    rcases heq : r.resolve x with ⟨_ | v, r₁⟩ <;> rw [heq] at hresolve
    · rw [expand_succ_run, if_neg hmem, heq] at hrun
      obtain ⟨-, rfl⟩ := Prod.mk.inj (Option.some.inj hrun)
      exact hresolve
    · obtain ⟨full, r₂, hcollect, -, rfl⟩ := (expand_eq_some_of_resolve hmem heq).1 hrun
      have helement (a : α) : Walk.Ensures I
          (expandElement name? (expand kind name? b (path ++ [x])) a) fun _ => True := by
        unfold expandElement
        cases name? a with
        | none => exact Walk.ensures_pure trivial
        | some name => exact Walk.ensures_bind (ih _ name) fun _ _ => Walk.ensures_pure trivial
      have hr₂ : I r₂ := (Walk.ensures_collect (R := fun _ _ => True) helement trivial
        (fun _ _ => trivial) v _ _ _ hresolve hcollect).1
      cases full with
      | error e => exact hr₂
      | ok full => exact hI r₂ x full hr₂

/-- An expansion leaves the rules alone, and what is remembered afterwards was an answer
before or is unfolded. -/
theorem Grounded.expand (h : Grounded name? r) {res : Except Error (Option (List α))}
    (hrun : expand kind name? b [] x r = some (res, r')) :
    Grounded name? r' ∧ r'.lookup? = r.lookup? ∧
      ∀ y v, r'.memo.get? y = some v → (r.resolve y).1 = some v ∨
        Unfolds kind name? (fun y => (r.resolve y).1) y v := by
  obtain ⟨⟨hstatics, hpatterns, htidy⟩, -⟩ := ensures_expand
    (I := fun r' => r'.statics = r.statics ∧ r'.patterns = r.patterns ∧ r'.memo.Tidy)
    (fun _ y v hr => ⟨hr.1, hr.2.1, hr.2.2.set y v⟩) b [] x r res r' ⟨rfl, rfl, h.filed.tidy⟩
    hrun
  have hlookup : r'.lookup? = r.lookup? := by
    funext y
    rw [lookup?, hstatics, hpatterns, lookup?]
  have hentry {y : String} {v : List α} (hy : r'.memo.get? y = some v) :=
    (expand_done (sound_of_placed kind name? h.filed.tidy.toWellPlaced) (.nil _ _ _)
      hrun).later.sound.entry hy
  refine ⟨⟨⟨hstatics ▸ h.filed.statics, hpatterns ▸ h.filed.patterns, htidy⟩, ?_, ?_⟩, hlookup,
    fun y v => hentry⟩
  · intro y v hy
    rw [hlookup, ne_eq, ← h.fst_resolve_eq_none_iff]
    rcases hentry hy with hv | hv
    · simp [hv]
    · obtain ⟨answer, hanswer⟩ := hv.exists_lookup
      simp [hanswer]
  · intro y v hy
    rw [hlookup]
    rcases hentry hy with hv | hv
    · -- an answer from before was remembered, or is that of the rules
      rw [fst_resolve, ← lookup?_eq] at hv
      cases hget : r.memo.get? y with
      | none => exact .inl (by rwa [hget, Option.none_or] at hv)
      | some w =>
        rw [hget, Option.some_or] at hv
        exact h.entry (hget.trans hv)
    · refine .inr fun a ha name hname => ?_
      rw [← h.fst_resolve_eq_none_iff]
      exact hv.settled ha hname

/-! ### Removals -/

variable {q : Request (List α)}

/-- A removal changes no answer to an input that is not forgotten with it. -/
theorem Filed.lookup?_removed (h : r.Filed) (hq : q.Removes)
    (hx : r.rulebook.drops x q = false) : (r.perform q).2.lookup? x = r.lookup? x := by
  rw [lookup?_eq, lookup?_eq]
  cases q with
  | removeStatic k =>
    rw [AliasRules.perform, removeStatic_snd]
    refine congrArg (Option.or · _) (h.statics.findSome?_erase ?_)
    rw [Option.bind_map, h.statics.get?_eq_ruleOf?]
    exact Option.not_isSome_iff_eq_none.1 (Bool.eq_false_iff.1 hx)
  | removePattern k =>
    rw [AliasRules.perform, removePattern_snd]
    refine congrArg (Option.or _) (h.patterns.findSome?_erase ?_)
    rw [Option.bind_map, h.patterns.get?_eq_ruleOf?]
    exact Option.not_isSome_iff_eq_none.1 (Bool.eq_false_iff.1 hx)
  | _ => exact hq.elim

/-- So it gives no input an answer. -/
theorem Filed.lookup?_removed_eq_none (h : r.Filed) (hq : q.Removes) (hx : r.lookup? x = none) :
    (r.perform q).2.lookup? x = none := by
  rw [h.lookup?_removed hq, hx]
  rw [lookup?_eq] at hx
  exact Bool.eq_false_iff.2 fun hdrops => Rulebook.answer?_ne_none_of_drops hdrops hx

theorem Filed.get?_removed (h : r.Filed) (hq : q.Removes) {v : List α} :
    (r.perform q).2.memo.get? x = some v ↔
      r.rulebook.drops x q = false ∧ r.memo.get? x = some v := by
  rw [h.get?_perform, Rulebook.recallAfter_of_removes hq]
  cases r.rulebook.drops x q <;> simp

theorem Grounded.removed (h : Grounded name? r) (hq : q.Removes) :
    Grounded name? (r.perform q).2 where
  filed := h.filed.perform q
  answered := by
    intro x v hx
    obtain ⟨hdrops, hx⟩ := (h.filed.get?_removed hq).1 hx
    rw [h.filed.lookup?_removed hq hdrops]
    exact h.answered hx
  entry := by
    intro x v hx
    obtain ⟨hdrops, hx⟩ := (h.filed.get?_removed hq).1 hx
    rw [h.filed.lookup?_removed hq hdrops]
    exact (h.entry hx).imp_right fun hv a ha name hname =>
      h.filed.lookup?_removed_eq_none hq (hv a ha name hname)

end Grounded

/-! ## Outdated answers -/

section Definitions

variable (kind : AliasKind) (name? : α → Option String)
  (deep : Nat → String → Walk (AliasRules (List α)) β)

/-- What rules can have become while they were asked for expansions, in the way `deep`, and
rules were removed from among them, each removal one that `admits` allows. -/
inductive Pruned (admits : AliasRules (List α) → Request (List α) → Prop)
    (start : AliasRules (List α)) : AliasRules (List α) → Prop
  | start : Pruned admits start start
  | expanded {budget : Nat} {input : String} {result : Except Error β}
      {r r' : AliasRules (List α)} :
      Pruned admits start r → deep budget input r = some (result, r') → Pruned admits start r'
  | removed {r : AliasRules (List α)} {q : Request (List α)} :
      Pruned admits start r → q.Removes → admits r q → Pruned admits start (r.perform q).2

/-- What is remembered of an input is neither the answer of the rules nor what this unfolds
to by the rules as they are now. -/
def Outdated (r : AliasRules (List α)) (x : String) : Prop :=
  ∃ v, r.memo.get? x = some v ∧ r.lookup? x ≠ some v ∧ ¬ Unfolds kind name? r.lookup? x v

/-- An input has the results that it has where nothing is remembered. -/
def LikeFresh (r : AliasRules (List α)) (x : String) : Prop :=
  ∀ result, (∃ b r', deep b x r = some (result, r')) ↔
    ∃ b r', deep b x { r with memo := {} } = some (result, r')

/-- No name that stays remembered by its expansion leads to an input that the removed rule
answers. -/
def Spares (r : AliasRules (List α)) (q : Request (List α)) : Prop :=
  ∀ x v, (r.perform q).2.memo.get? x = some v → r.lookup? x ≠ some v →
    ∀ y, ReflTransGen (Mentions name? r.lookup?) x y → r.rulebook.drops y q = false

/-- What expansions are worth after removals. They are those of the rules that are left, as
long as they meet no name that is outdated; all of them are just if there is no such name;
and there is none if every removal has spared the names that stayed remembered. -/
structure Aftermath (start r : AliasRules (List α)) : Prop where
  apart : ∀ x, (∀ y, ReflTransGen (Mentions name? r.lookup?) x y →
    ¬ Outdated kind name? r y) → LikeFresh deep r x
  exact : (∀ x, LikeFresh deep r x) ↔ ∀ y, ¬ Outdated kind name? r y
  spared : Pruned deep (Spares name?) start r → ∀ x, LikeFresh deep r x

end Definitions

section

variable {kind : AliasKind} {name? : α → Option String} {start r r' : AliasRules (List α)}
  {deep : Nat → String → Walk (AliasRules (List α)) β} {view : String → Option (List α) → β}
  {q : Request (List α)} {b : Nat} {x : String}

/-- What is remembered counts like an answer of the rules. -/
theorem exists_deep_iff
    (hdeep : ∀ {b input r res r'}, deep b input r = some (res, r') ↔
      ∃ o, expand kind name? b [] input r = some (o, r') ∧ res = o.map (view input))
    (hr : r.memo.WellPlaced) {result : Except Error β} :
    (∃ b r', deep b x r = some (result, r')) ↔
      ∃ o, Means (fun b => unfold kind name? (fun y => (r.resolve y).1) b [] x) o ∧
        result = o.map (view x) := by
  have hsound := sound_of_placed kind name? hr
  constructor
  · rintro ⟨b, r', hrun⟩
    obtain ⟨o, hexpand, hresult⟩ := hdeep.1 hrun
    exact ⟨o, (expand_done hsound (.nil _ _ _) hexpand).given, hresult⟩
  · rintro ⟨o, ⟨b, hb⟩, hresult⟩
    obtain ⟨r', hexpand⟩ := expand_follows hsound (.nil _ _ _) hb
    exact ⟨b, r', hdeep.2 ⟨o, hexpand, hresult⟩⟩

theorem exists_deep_fresh_iff
    (hdeep : ∀ {b input r res r'}, deep b input r = some (res, r') ↔
      ∃ o, expand kind name? b [] input r = some (o, r') ∧ res = o.map (view input))
    {result : Except Error β} :
    (∃ b r', deep b x { r with memo := {} } = some (result, r')) ↔
      ∃ o, Means (fun b => unfold kind name? r.lookup? b [] x) o ∧ result = o.map (view x) := by
  have hfresh : (fun y => ({ r with memo := {} }.resolve y).1) = r.lookup? := by
    funext y
    rw [fst_resolve, lookup?_eq]
    rfl
  rw [exists_deep_iff hdeep Memo.wellPlaced_empty, hfresh]

/-- Where an input is not outdated, what is remembered of it is as good as the answer of the
rules. -/
theorem Grounded.alike (h : Grounded name? r) (hx : ¬ Outdated kind name? r x) :
    Alike kind name? (fun y => (r.resolve y).1) r.lookup? x := by
  cases hget : r.memo.get? x with
  | none =>
    refine .inl ?_
    show (r.resolve x).1 = r.lookup? x
    rw [fst_resolve, hget, lookup?_eq, Option.none_or]
  | some v =>
    by_cases hv : r.lookup? x = some v
    · refine .inl ?_
      show (r.resolve x).1 = r.lookup? x
      rw [fst_resolve, hget, hv, Option.some_or]
    · have hfull : Unfolds kind name? r.lookup? x v := by
        by_contra hfull
        exact hx ⟨v, hget, hv, hfull⟩
      exact .inr ⟨v, h.unfolds_of_get? hget hv, hfull⟩

section

variable (hdeep : ∀ {b input r res r'}, deep b input r = some (res, r') ↔
  ∃ o, AliasRules.expand kind name? b [] input r = some (o, r') ∧ res = o.map (view input))

include hdeep

theorem Grounded.likeFresh (h : Grounded name? r)
    (hx : ∀ y, ReflTransGen (Mentions name? r.lookup?) x y → ¬ Outdated kind name? r y) :
    LikeFresh deep r x := by
  intro result
  rw [exists_deep_iff hdeep h.filed.tidy.toWellPlaced, exists_deep_fresh_iff hdeep]
  exact exists_congr fun o => and_congr_left fun _ =>
    means_unfold_iff_of_alike fun y hy => h.alike (hx y hy)

/-- An input that is outdated is answered by what is remembered of it. -/
theorem Grounded.not_outdated (h : Grounded name? r)
    (hview : ∀ {x v w}, view x (some v) = view x (some w) → v = w)
    (hx : LikeFresh deep r x) : ¬ Outdated kind name? r x := by
  rintro ⟨v, hget, hv, hfull⟩
  have hremembered : ∃ b r', deep b x r = some (.ok (view x (some v)), r') :=
    (exists_deep_iff hdeep h.filed.tidy.toWellPlaced).2
      ⟨.ok (some v), h.unfolds_of_get? hget hv, rfl⟩
  obtain ⟨o, ⟨b, hb⟩, hresult⟩ :=
    (exists_deep_fresh_iff hdeep).1 ((hx _).1 hremembered)
  rcases o with e | full | full
  · cases hresult
  · -- an input that is remembered has an answer
    obtain _ | b := b
    · exact not_gives_unfold_zero hb
    · exact h.answered hget (gives_unfold_ok_none.1 hb).2
  · obtain rfl := hview (Except.ok.inj hresult)
    exact hfull ⟨b, hb⟩

omit hdeep in
/-- Where no input is outdated, an expansion makes none so. -/
theorem Grounded.not_outdated_expand (h : Grounded name? r)
    (hnone : ∀ y, ¬ Outdated kind name? r y) {res : Except Error (Option (List α))}
    (hrun : AliasRules.expand kind name? b [] x r = some (res, r')) (y : String) :
    ¬ Outdated kind name? r' y := by
  obtain ⟨-, hlookup, hentry⟩ := h.expand hrun
  rintro ⟨v, hget, hv, hfull⟩
  rw [hlookup] at hv hfull
  rcases hentry y v hget with hreply | hunfolds
  · rw [fst_resolve, ← lookup?_eq] at hreply
    cases hold : r.memo.get? y with
    | none => exact hv (by rwa [hold, Option.none_or] at hreply)
    | some w =>
      rw [hold, Option.some_or] at hreply
      exact hnone y ⟨v, hold.trans hreply, hv, hfull⟩
  · exact hfull (hunfolds.of_alike fun z _ => h.alike (hnone z))

omit hdeep in
/-- Nor does a removal that spares the names that stay remembered. -/
theorem Grounded.not_outdated_removed (h : Grounded name? r)
    (hnone : ∀ y, ¬ Outdated kind name? r y) (hq : q.Removes) (hspares : Spares name? r q)
    (y : String) : ¬ Outdated kind name? (r.perform q).2 y := by
  rintro ⟨v, hget, hv, hfull⟩
  obtain ⟨hdrops, hold⟩ := (h.filed.get?_removed hq).1 hget
  rw [h.filed.lookup?_removed hq hdrops] at hv
  have hunfolds : Unfolds kind name? r.lookup? y v := by
    by_contra hunfolds
    exact hnone y ⟨v, hold, hv, hunfolds⟩
  obtain ⟨b, hb⟩ := hunfolds
  -- whatever is met on the way to the expansion has the answer it had
  refine hfull (means_unfold_of_alike (fun z hz => .inl ?_) (.nil _ _ _) (.nil _ _ _) hb)
  have hreach := ReflTransGen.mono (fun _ _ hmention => hmention.1) _ _ hz
  exact (h.filed.lookup?_removed hq (hspares y v hget hv z hreach)).symm

variable {admits : AliasRules (List α) → Request (List α) → Prop} (hfiled : start.Filed)
  (hmemo : start.memo = {})

include hfiled hmemo

theorem Pruned.grounded (h : Pruned deep admits start r) : Grounded name? r := by
  induction h with
  | start => exact ⟨hfiled, fun hx => by simp [hmemo] at hx, fun hx => by simp [hmemo] at hx⟩
  | expanded _ hcall ih =>
    obtain ⟨o, hexpand, -⟩ := hdeep.1 hcall
    exact (ih.expand hexpand).1
  | removed _ hq _ ih => exact ih.removed hq

theorem Pruned.not_outdated (h : Pruned deep (Spares name?) start r) (y : String) :
    ¬ Outdated kind name? r y := by
  induction h generalizing y with
  | start =>
    rintro ⟨v, hget, -⟩
    simp [hmemo] at hget
  | expanded h hcall ih =>
    obtain ⟨o, hexpand, -⟩ := hdeep.1 hcall
    exact (h.grounded hdeep hfiled hmemo).not_outdated_expand ih hexpand y
  | removed h hq hspares ih =>
    exact (h.grounded hdeep hfiled hmemo).not_outdated_removed ih hq hspares y

theorem Pruned.aftermath_of_expand
    (hview : ∀ {x v w}, view x (some v) = view x (some w) → v = w)
    (h : Pruned deep admits start r) : Aftermath kind name? deep start r := by
  have hgrounded : Grounded name? r := h.grounded hdeep hfiled hmemo
  have hexact : (∀ x, LikeFresh deep r x) ↔ ∀ y, ¬ Outdated kind name? r y :=
    ⟨fun hall y => hgrounded.not_outdated hdeep hview (hall y),
      fun hnone x => hgrounded.likeFresh hdeep fun y _ => hnone y⟩
  exact ⟨fun x hx => hgrounded.likeFresh hdeep hx, hexact,
    fun hspared => hexact.2 (hspared.not_outdated hdeep hfiled hmemo)⟩

end

end

/-! ## Selectors and shortcuts -/

/-- After any expansions and removals, in any order, an input is answered as by the rules
that are left, unless it leads to a name that is outdated. -/
theorem Pruned.aftermath (kind : AliasKind) {start r : AliasRules (List kind.Element)}
    (hfiled : start.Filed) (hmemo : start.memo = {})
    (h : Pruned kind.expand (fun _ _ => True) start r) :
    Aftermath kind kind.name? kind.expand start r := by
  cases kind with
  | selector =>
    exact h.aftermath_of_expand expandSelector_eq_some hfiled hmemo fun heq => heq
  | shortcut =>
    exact h.aftermath_of_expand expandShortcut_eq_some hfiled hmemo fun heq => Option.some.inj heq

/-- Two aliases, the first of which has the second one for its answer. `element` makes an
element from a name. -/
def chained (element : String → α) : AliasRules (List α) :=
  (performAll
    [.addStatic ⟨"a", "a", [element "b"]⟩, .addStatic ⟨"b", "b", [element "c"]⟩] {}).2

/-- What they have become once the first one was expanded. -/
def chainedAsked (element : String → α) : AliasRules (List α) :=
  (((chained element).remember "a" [element "b"]).remember "b" [element "c"]).remember "a"
    [element "c"]

theorem filed_chained (element : String → α) : (chained element).Filed :=
  (filed_empty.performAll _).1

/-- The first alias can be removed: what is remembered of the second one is its answer. -/
theorem not_outdated_chained (kind : AliasKind) (name? : α → Option String)
    (element : String → α) (y : String) :
    ¬ Outdated kind name? ((chainedAsked element).perform (.removeStatic "a")).2 y := by
  rintro ⟨v, hget, hv, -⟩
  have hy : y ∈ ["b"] := Memo.mem_inputs_of_get? hget
  obtain rfl := List.mem_singleton.1 hy
  exact hv hget

theorem Pruned.aftermath_chained :
    (∀ x, LikeFresh expandSelector ((chainedAsked id).perform (.removeStatic "a")).2 x) ∧
      ∀ x, LikeFresh expandShortcut ((chainedAsked .shortcut).perform (.removeStatic "a")).2 x := by
  have hselector : expandSelector 3 "a" (chained id) = some (.ok ["c"], chainedAsked id) := by rfl
  have hshortcut : expandShortcut 3 "a" (chained .shortcut) =
      some (.ok (some [.shortcut "c"]), chainedAsked .shortcut) := by rfl
  have hselectors : Pruned (AliasKind.expand .selector) (fun _ _ => True) (chained id)
      ((chainedAsked id).perform (.removeStatic "a")).2 :=
    .removed (.expanded .start hselector) trivial trivial
  have hshortcuts : Pruned (AliasKind.expand .shortcut) (fun _ _ => True)
      (chained StyleItem.shortcut)
      ((chainedAsked StyleItem.shortcut).perform (.removeStatic "a")).2 :=
    .removed (.expanded .start hshortcut) trivial trivial
  have hafter := Pruned.aftermath .selector (filed_chained id) rfl hselectors
  have hafter' := Pruned.aftermath .shortcut (filed_chained StyleItem.shortcut) rfl hshortcuts
  exact ⟨hafter.exact.2 (not_outdated_chained .selector some id),
    hafter'.exact.2 (not_outdated_chained .shortcut StyleItem.shortcut? .shortcut)⟩

/-- The expansion of an alias stays when the second alias is removed, which it was made with. -/
theorem expansion_outlives_rule :
    ∃ r, Pruned expandSelector (fun _ _ => True) (chained id) r ∧ r.statics.keys = ["a"] ∧
      (∃ r', expandSelector 3 "a" r = some (.ok ["c"], r')) ∧
      (∃ r', expandSelector 3 "a" { r with memo := {} } = some (.ok ["b"], r')) ∧
      ¬ LikeFresh expandSelector r "a" := by
  have hasked : expandSelector 3 "a" (chained id) = some (.ok ["c"], chainedAsked id) := by rfl
  have hpruned : Pruned expandSelector (fun _ _ => True) (chained id)
      ((chainedAsked id).perform (.removeStatic "b")).2 :=
    .removed (.expanded .start hasked) trivial trivial
  refine ⟨_, hpruned, by rfl, ⟨_, by rfl⟩, ⟨_, by rfl⟩, fun hlike => ?_⟩
  have hgrounded := hpruned.grounded expandSelector_eq_some (filed_chained id) rfl
  refine hgrounded.not_outdated expandSelector_eq_some (fun heq => heq) hlike ?_
  -- what is left of the rules answers the first alias by the name of the second one
  have hsettled : Unfolds .selector some
      ((chainedAsked id).perform (.removeStatic "b")).2.lookup? "a" ["b"] :=
    .of_settled (by rfl) fun a ha name hname => by
      obtain rfl := List.mem_singleton.1 ha
      obtain rfl := Option.some.inj hname
      rfl
  exact ⟨["c"], by rfl, by decide, fun hfull => absurd (hfull.unique hsettled) (by decide)⟩

end AliasRules

end AtomicCss
