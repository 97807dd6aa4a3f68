import AtomicCss.Proofs.Alias.Cycles
import Mathlib.Data.Set.Finite.Lattice

/-!
# Expansions without an end

A cycle is noticed when a name comes back. A pattern rule can answer every name with a new
one, and then no name ever comes back. So an expansion does not end if the names that it
opens one inside the other go on for ever, each of them new, and this is the only reason.

- `AliasRules.Clear`: an input leads to finitely many names and to no cycle. Its unfolding
  succeeds: `AliasRules.exists_unfold_ok_iff_clear`.
- `AliasRules.Descends`: the unfolding of one name opens that of another, once all elements
  before it are done.
- `AliasRules.Endless`: one name opens the other for ever, and none comes back.
- `AliasRules.exists_unfold_iff_not_endless`: an unfolding ends if and only if it is not
  endless.
- `AliasRules.History.ends_iff_not_endless`: what this means for rules with a past.
-/

namespace AtomicCss.AliasRules

open Reading Relation

variable {α β : Type} {kind : AliasKind} {name? : α → Option String}
  {lookup? : String → Option (List α)} {b : Nat} {path : List String} {input x y : String}

/-! ## Inputs that are done in the end -/

/-- The input leads to finitely many names, and to none that leads back to itself. -/
structure Clear (name? : α → Option String) (lookup? : String → Option (List α))
    (input : String) : Prop where
  finite : {y | ReflTransGen (Mentions name? lookup?) input y}.Finite
  acyclic : ¬ Circular name? lookup? input

theorem finite_mentions (name? : α → Option String) (lookup? : String → Option (List α))
    (input : String) : {y | Mentions name? lookup? input y}.Finite := by
  refine (((lookup? input).getD []).filterMap name?).finite_toSet.subset ?_
  rintro y ⟨answer, hanswer, a, ha, hname⟩
  exact List.mem_filterMap.2 ⟨a, by simpa [hanswer] using ha, hname⟩

/-- What succeeds leads to finitely many names. -/
theorem finite_reach_of_unfold_ok {full : Option (List α)}
    (h : Gives (unfold kind name? lookup? b path input) (.ok full)) :
    {y | ReflTransGen (Mentions name? lookup?) input y}.Finite := by
  induction b generalizing path input full with
  | zero => exact absurd h not_gives_unfold_zero
  | succ b ih =>
    have hbelow : (⋃ z ∈ {z | Mentions name? lookup? input z},
        {y | ReflTransGen (Mentions name? lookup?) z y}).Finite := by
      refine (finite_mentions name? lookup? input).biUnion fun z hz => ?_
      obtain ⟨inner, hinner⟩ := exists_unfold_of_mentions h hz
      exact ih hinner
    refine (hbelow.insert input).subset fun y hy => ?_
    rcases hy.cases_head with rfl | ⟨z, hz, hzy⟩
    · exact Set.mem_insert _ _
    · exact Set.mem_insert_of_mem _ (Set.mem_biUnion hz hzy)

theorem clear_of_unfold_ok {full : Option (List α)}
    (h : Gives (unfold kind name? lookup? b path input) (.ok full)) : Clear name? lookup? input :=
  ⟨finite_reach_of_unfold_ok h, not_circular_of_unfold_ok h⟩

/-- An input that leads to finitely many names has an unfolding that ends. -/
theorem exists_unfold_of_finite_reach
    (h : {y | ReflTransGen (Mentions name? lookup?) input y}.Finite) :
    ∃ b r, Gives (unfold kind name? lookup? b [] input) r := by
  refine ⟨h.toFinset.toList.length + 1,
    exists_unfold_of_finite h.toFinset.toList (fun x hx _ => ?_) List.nodup_nil
      (List.nil_subset _) (by simp)⟩
  simpa using hx

/-- The unfolding of an input succeeds if and only if the input is clear. -/
theorem exists_unfold_ok_iff_clear (kind : AliasKind) :
    (∃ b full, Gives (unfold kind name? lookup? b [] input) (.ok full)) ↔
      Clear name? lookup? input := by
  constructor
  · rintro ⟨b, full, h⟩
    exact clear_of_unfold_ok h
  · intro h
    obtain ⟨b, e | full, hr⟩ : ∃ b r, Gives (unfold kind name? lookup? b [] input) r :=
      exists_unfold_of_finite_reach h.finite
    · exact absurd (circular_of_unfold_error (.nil _ _ _) hr) h.acyclic
    · exact ⟨b, full, hr⟩

/-- It also succeeds inside a path that leads to the input. -/
theorem Clear.unfold_ok (h : Clear name? lookup? input) (kind : AliasKind)
    (hpath : LeadTo name? lookup? path input) :
    ∃ b full, Gives (unfold kind name? lookup? b path input) (.ok full) := by
  obtain ⟨b, full, hb⟩ := (exists_unfold_ok_iff_clear kind).2 h
  refine ⟨b, full, unfold_ok_of_apart hb fun y hy hreach => h.acyclic ?_⟩
  -- a name of the path that is reached leads to the input and so back to itself
  exact ⟨y, hreach, TransGen.trans_left (hpath y hy) hreach⟩

/-! ## One name inside the other -/

/-- The unfolding of `x` comes to that of `y`: an element of the answer has this name, and all
names before it are clear. -/
def Descends (name? : α → Option String) (lookup? : String → Option (List α))
    (x y : String) : Prop :=
  ∃ before a after, lookup? x = some (before ++ a :: after) ∧ name? a = some y ∧
    ∀ a' ∈ before, ∀ z, name? a' = some z → Clear name? lookup? z

/-- From the input on, one name opens the other for ever, and none of them comes back. -/
def Endless (name? : α → Option String) (lookup? : String → Option (List α))
    (input : String) : Prop :=
  ∃ names : Nat → String, names 0 = input ∧ Function.Injective names ∧
    ∀ n, Descends name? lookup? (names n) (names (n + 1))

theorem Descends.mentions (h : Descends name? lookup? x y) : Mentions name? lookup? x y := by
  obtain ⟨before, a, after, hanswer, hname, -⟩ := h
  exact ⟨_, hanswer, a, List.mem_append_right _ List.mem_cons_self, hname⟩

section

variable {names : Nat → String}

/-- The names that are open at the same time lead to the last one. -/
theorem leadTo_of_descends (h : ∀ n, Descends name? lookup? (names n) (names (n + 1))) (n : Nat) :
    LeadTo name? lookup? ((List.range n).map names) (names n) := by
  induction n with
  | zero => exact .nil _ _ _
  | succ n ih =>
    rw [List.range_succ, List.map_append, List.map_singleton]
    exact ih.mentions (h n).mentions

/-- Where one name opens the other for ever, no budget is enough. -/
theorem not_gives_of_descends (hinj : Function.Injective names)
    (h : ∀ n, Descends name? lookup? (names n) (names (n + 1))) (n : Nat)
    {r : Except Error (Option (List α))} :
    ¬ Gives (unfold kind name? lookup? b ((List.range n).map names) (names n)) r := by
  induction b generalizing n r with
  | zero => exact not_gives_unfold_zero
  | succ b ih =>
    obtain ⟨before, a, after, hanswer, hname, hbefore⟩ := h n
    intro hgives
    rcases gives_unfold_succ.1 hgives with
      ⟨hmem, -⟩ | ⟨-, hnone, -⟩ | ⟨-, answer, full, hl, hfull, -⟩
    · obtain ⟨k, hk, heq⟩ := List.mem_map.1 hmem
      exact absurd (hinj heq) (List.mem_range.1 hk).ne
    · rw [hanswer] at hnone
      cases hnone
    obtain rfl : answer = before ++ a :: after := Option.some.inj (hl.symm.trans hanswer)
    obtain ⟨here, hhere⟩ := exists_gives_of_collect hfull fun a' ha' e he => by
      -- a clear name is unfolded here, too, so it does not fail
      rcases gives_unfoldElement.1 he with ⟨-, heq⟩ | ⟨z, inner, hz, hinner, heq⟩
      · cases heq
      · have hmentions : Mentions name? lookup? (names n) z :=
          ⟨_, hanswer, a', List.mem_append_left _ ha', hz⟩
        obtain ⟨c, full, hc⟩ := (hbefore a' ha' z hz).unfold_ok kind
          ((leadTo_of_descends h n).mentions hmentions)
        rw [(rising_unfold _ z).unique hinner hc] at heq
        cases heq
    rcases gives_unfoldElement.1 hhere with ⟨hnone, -⟩ | ⟨z, inner, hz, hinner, -⟩
    · rw [hname] at hnone
      cases hnone
    · obtain rfl : names (n + 1) = z := Option.some.inj (hname.symm.trans hz)
      have hpath : (List.range n).map names ++ [names n] = (List.range (n + 1)).map names := by
        rw [List.range_succ, List.map_append, List.map_singleton]
      rw [hpath] at hinner
      exact ih (n + 1) hinner

end

/-! ## What does not end -/

/-- No budget is enough for the unfolding of an input inside the unfoldings of a path. -/
def Stuck (kind : AliasKind) (name? : α → Option String) (lookup? : String → Option (List α))
    (path : List String) (input : String) : Prop :=
  ∀ b r, ¬ Gives (unfold kind name? lookup? b path input) r

theorem Stuck.notMem (h : Stuck kind name? lookup? path input) : input ∉ path :=
  fun hmem => h 1 _ (gives_unfold_succ.2 (.inl ⟨hmem, rfl⟩))

/-- What does not end opens a name whose unfolding does not end. -/
theorem Stuck.exists_descends (h : Stuck kind name? lookup? path input) :
    ∃ y, Descends name? lookup? input y ∧ Stuck kind name? lookup? (path ++ [input]) y := by
  cases hanswer : lookup? input with
  | none => exact absurd (gives_unfold_ok_none.2 ⟨h.notMem, hanswer⟩) (h 1 _)
  | some answer =>
    have hrising (a : α) : Rising fun c =>
        unfoldElement name? (unfold kind name? lookup? c (path ++ [input])) a :=
      rising_unfoldElement (fun name => rising_unfold (path ++ [input]) name) a
    have hcollect (c : Nat) (r : Except Error (List α)) :
        ¬ Gives (Walk.collect (fun a => unfoldElement name?
          (unfold kind name? lookup? c (path ++ [input])) a) answer) r := fun hr =>
      h (c + 1) _ (gives_unfold_succ.2 (.inr (.inr ⟨h.notMem, answer, r, hanswer, hr, rfl⟩)))
    obtain ⟨before, a, after, rfl, hbefore, hstuck⟩ := exists_stuck_of_collect hrising hcollect
    cases hname : name? a with
    | none => exact absurd (gives_unfoldElement.2 (.inl ⟨hname, rfl⟩)) (hstuck 0 (.ok [a]))
    | some y =>
      refine ⟨y, ⟨before, a, after, hanswer, hname, fun a' ha' z hz => ?_⟩, fun c r hr => ?_⟩
      · obtain ⟨c, here, hhere⟩ := hbefore a' ha'
        rcases gives_unfoldElement_ok.1 hhere with ⟨hnone, -⟩ | ⟨z', inner, hz', hinner, -⟩
        · rw [hz] at hnone
          cases hnone
        · obtain rfl : z = z' := Option.some.inj (hz.symm.trans hz')
          exact clear_of_unfold_ok hinner
      · exact hstuck c _ (gives_unfoldElement.2 (.inr ⟨y, r, hname, hr, rfl⟩))

/-- One more name is open, and the innermost one does not end. -/
def Deeper (kind : AliasKind) (name? : α → Option String) (lookup? : String → Option (List α))
    (inner outer : List String × String) : Prop :=
  inner.1 = outer.1 ++ [outer.2] ∧ Descends name? lookup? outer.2 inner.2 ∧
    Stuck kind name? lookup? inner.1 inner.2

theorem not_stuck_of_acc {s : List String × String} (h : Acc (Deeper kind name? lookup?) s) :
    ¬ Stuck kind name? lookup? s.1 s.2 := by
  induction h with
  | intro s _ ih =>
    intro hstuck
    obtain ⟨y, hy, hdeeper⟩ := hstuck.exists_descends
    exact ih (s.1 ++ [s.2], y) ⟨rfl, hy, hdeeper⟩ hdeeper

/-- What does not end is endless. -/
theorem Stuck.endless (h : Stuck kind name? lookup? [] input) : Endless name? lookup? input := by
  obtain ⟨s, hzero, hdeeper⟩ :=
    not_acc_iff_exists_descending_chain.1 fun hacc => not_stuck_of_acc (s := ([], input)) hacc h
  have hstuck (n : Nat) : Stuck kind name? lookup? (s n).1 (s n).2 := by
    cases n with
    | zero => exact hzero ▸ h
    | succ n => exact (hdeeper n).2.2
  -- what was open stays open, so no name comes back
  have hopen (k m : Nat) : (s k).2 ∈ (s (k + 1 + m)).1 := by
    induction m with
    | zero => exact (hdeeper k).1 ▸ List.mem_append_right _ (List.mem_singleton_self _)
    | succ m ih => exact (hdeeper (k + 1 + m)).1 ▸ List.mem_append_left _ ih
  refine ⟨fun n => (s n).2, congrArg Prod.snd hzero, .of_lt_imp_ne fun k n hlt heq => ?_,
    fun n => (hdeeper n).2.1⟩
  obtain ⟨m, rfl⟩ := Nat.exists_eq_add_of_le (Nat.succ_le_of_lt hlt)
  have hmem := hopen k m
  exact (hstuck (k + 1 + m)).notMem (by rw [← heq]; exact hmem)

/-- An unfolding ends if and only if it is not endless. -/
theorem exists_unfold_iff_not_endless (kind : AliasKind) :
    (∃ b r, Gives (unfold kind name? lookup? b [] input) r) ↔ ¬ Endless name? lookup? input := by
  constructor
  · rintro ⟨b, r, h⟩ ⟨names, rfl, hinj, hnames⟩
    exact not_gives_of_descends hinj hnames 0 h
  · intro h
    by_contra hnone
    have hstuck : Stuck kind name? lookup? [] input := fun b r hr => hnone ⟨b, r, hr⟩
    exact h hstuck.endless

/-! ## Rules with a past -/

/-- What the rules `r`, which have a past, do with the input: the expansion ends unless the
input is endless, as it is not if it leads to finitely many names; it succeeds if and only
if the input is clear; and its only errors are chains that close. -/
structure EndsUnlessEndless (kind : AliasKind) (name? : α → Option String)
    (deep : Nat → String → Walk (AliasRules (List α)) β) (fresh r : AliasRules (List α))
    (input : String) : Prop where
  ends_iff : (∃ b result r', deep b input r = some (result, r')) ↔
    ¬ Endless name? fresh.lookup? input
  ends_of_finite : {y | ReflTransGen (Mentions name? fresh.lookup?) input y}.Finite →
    ∃ b result r', deep b input r = some (result, r')
  succeeds_iff : (∃ b v r', deep b input r = some (.ok v, r')) ↔ Clear name? fresh.lookup? input
  closes : ∀ {b e r'}, deep b input r = some (.error e, r') →
    ∃ chain, e = .cyclic kind chain ∧ Closes (Mentions name? fresh.lookup?) input chain

/-- Rules with a past come to a result exactly where the unfolding gives it. -/
theorem History.exists_call_iff {kind : AliasKind} {fresh r : AliasRules (List kind.Element)}
    (hfresh : fresh.memo = {}) (h : History kind.expand fresh r)
    {result : Except Error kind.Expansion} :
    (∃ b r', kind.expand b input r = some (result, r')) ↔
      ∃ b answer, Gives (unfold kind kind.name? fresh.lookup? b [] input) answer ∧
        result = answer.map (kind.view input) := by
  constructor
  · rintro ⟨b, r', hcall⟩
    exact h.exists_unfold hfresh hcall
  · rintro ⟨b, answer, hanswer, rfl⟩
    exact ⟨b, (h.exact_of_expand AliasKind.expand_eq_some hfresh hanswer).gives⟩

theorem History.ends_iff_exists_unfold {kind : AliasKind}
    {fresh r : AliasRules (List kind.Element)} (hfresh : fresh.memo = {})
    (h : History kind.expand fresh r) :
    (∃ b result r', kind.expand b input r = some (result, r')) ↔
      ∃ b answer, Gives (unfold kind kind.name? fresh.lookup? b [] input) answer := by
  constructor
  · rintro ⟨b, result, r', hcall⟩
    obtain ⟨c, answer, hanswer, -⟩ := h.exists_unfold hfresh hcall
    exact ⟨c, answer, hanswer⟩
  · rintro ⟨b, answer, hanswer⟩
    obtain ⟨c, r', hcall⟩ := (h.exists_call_iff hfresh).2 ⟨b, answer, hanswer, rfl⟩
    exact ⟨c, _, r', hcall⟩

/-- With pattern rules an expansion need not end. Whatever has been expanded before, that of a
selector or of a shortcut ends if and only if its names do not go on for ever, one inside
the other and each of them new. -/
theorem History.ends_iff_not_endless (kind : AliasKind) {fresh r : AliasRules (List kind.Element)}
    (hfresh : fresh.memo = {}) (h : History kind.expand fresh r) (input : String) :
    EndsUnlessEndless kind kind.name? kind.expand fresh r input := by
  have hends : (∃ b result r', kind.expand b input r = some (result, r')) ↔
      ∃ b answer, Gives (unfold kind kind.name? fresh.lookup? b [] input) answer :=
    h.ends_iff_exists_unfold hfresh
  refine ⟨hends.trans (exists_unfold_iff_not_endless kind),
    fun hfinite => hends.2 (exists_unfold_of_finite_reach hfinite), ?succeeds, ?closes⟩
  case succeeds =>
    rw [← exists_unfold_ok_iff_clear kind]
    constructor
    · rintro ⟨b, v, r', hcall⟩
      obtain ⟨c, e | full, hanswer, heq⟩ := h.exists_unfold hfresh hcall
      · cases heq
      · exact ⟨c, full, hanswer⟩
    · rintro ⟨b, full, hanswer⟩
      obtain ⟨c, r', hcall⟩ := (h.exists_call_iff hfresh).2 ⟨b, _, hanswer, rfl⟩
      exact ⟨c, _, r', hcall⟩
  case closes =>
    intro b e r' hcall
    obtain ⟨c, e' | full, hanswer, heq⟩ := h.exists_unfold hfresh hcall
    · obtain rfl := Except.error.inj heq
      exact closes_of_unfold_error hanswer
    · cases heq

/-- A pattern rule for all names that begin with a prefix, with what it makes of the rest. -/
def prefixRule (start : String) (f : String → List String) : PatternRule (List String) where
  key := start
  pattern := "(?s)^" ++ start ++ "(.*)$"
  answer? input :=
    if start.toList.isPrefixOf input.toList then
      some (f (String.ofList (input.toList.drop start.length)))
    else none

/-- Names that a pattern rule takes something away from do not go on for ever. -/
theorem History.ends_iff_not_endless_shrinking :
    let shrinking : AliasRules (List String) := { patterns := [("px-", prefixRule "px-" fun x => [x])] }
    (∃ r', expandSelector 4 "px-px-a" shrinking = some (.ok ["a"], r') ∧
      History (AliasKind.expand .selector) shrinking r' ∧
      ¬ Endless some shrinking.lookup? "px-px-a" ∧ Clear some shrinking.lookup? "px-px-a" ∧
      ∀ input, EndsUnlessEndless .selector some expandSelector shrinking r' input) ∧
    ∀ name, EndsUnlessEndless .shortcut StyleItem.shortcut? expandShortcut {} {} name := by
  intro shrinking
  have hexpanded : (expandSelector 4 "px-px-a" shrinking).map Prod.fst = some (.ok ["a"]) := by
    rfl
  obtain ⟨⟨_, r'⟩, hcall, rfl⟩ := Option.map_eq_some_iff.1 hexpanded
  have hstart := History.ends_iff_not_endless .selector (r := shrinking) rfl .start "px-px-a"
  have hhistory : History (AliasKind.expand .selector) shrinking r' := .expanded .start hcall
  exact ⟨⟨r', hcall, hhistory, hstart.ends_iff.1 ⟨_, _, _, hcall⟩,
    hstart.succeeds_iff.1 ⟨_, _, _, hcall⟩,
    History.ends_iff_not_endless .selector rfl hhistory⟩,
    History.ends_iff_not_endless .shortcut rfl .start⟩

/-- A pattern rule that answers every name with a longer one. -/
def growing : AliasRules (List String) where
  patterns := [("grow-", prefixRule "grow-" fun x => ["grow-" ++ x ++ "x"])]

/-- The names that `growing` makes of one name. -/
def grown (n : Nat) : String := "grow-" ++ String.ofList (List.replicate n 'x')

theorem toList_grown (n : Nat) : (grown n).toList = "grow-".toList ++ List.replicate n 'x' := by
  simp [grown]

theorem lookup_growing (n : Nat) : growing.lookup? (grown n) = some [grown (n + 1)] := by
  have hprefix : "grow-".toList.isPrefixOf (grown n).toList = true := by
    rw [toList_grown, List.isPrefixOf_iff_prefix]
    exact List.prefix_append _ _
  have hrest : (grown n).toList.drop "grow-".length = List.replicate n 'x' := by
    rw [toList_grown]
    exact List.drop_left
  have hanswer : (prefixRule "grow-" fun x => ["grow-" ++ x ++ "x"]).answer? (grown n) =
      some [grown (n + 1)] := by
    rw [prefixRule]
    dsimp only
    rw [if_pos hprefix, hrest]
    congr 2
    rw [← String.toList_inj, toList_grown, List.replicate_succ']
    simp
  rw [lookup?]
  simp [growing, Table.values, hanswer]

theorem endless_growing : Endless some growing.lookup? "grow-" := by
  refine ⟨grown, by simp [grown], fun m n heq => ?_, fun n => ?_⟩
  · have hlength := congrArg (fun s => s.toList.length) heq
    simpa [toList_grown] using hlength
  · exact ⟨[], grown (n + 1), [], lookup_growing n, rfl, fun _ h => absurd h List.not_mem_nil⟩

/-- The names that a pattern rule makes of one name grow for ever, and no budget is enough for
its expansion: it neither succeeds nor reports a cycle. -/
theorem growing_never_ends :
    ¬ ∃ b result r', expandSelector b "grow-" growing = some (result, r') := by
  intro hends
  have hstart : History (AliasKind.expand .selector) growing growing := .start
  exact (exists_unfold_iff_not_endless .selector).1 ((hstart.ends_iff_exists_unfold rfl).1 hends)
    endless_growing

end AtomicCss.AliasRules
