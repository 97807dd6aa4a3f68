import AtomicCss.Proofs.Alias.History
import Mathlib.Data.List.Chain
import Mathlib.Logic.Relation

/-!
# Cycles are detected, and nothing else is

Every error of an expansion names a way back: a chain of names that starts with the input,
each of them in the answer to the one before, and closes at the first name that it meets
again. With static rules only, every expansion ends, and it ends with an error if and only
if a cycle of rules can be reached from the input.

- `AliasRules.Circular`: an input leads to one that leads back to itself.
- `AliasRules.circular_of_unfold_error`, `AliasRules.not_circular_of_unfold_ok`: unfolding
  fails only below a cycle and succeeds only if there is none.
- `AliasRules.Closes`: a chain of names that closes.
- `AliasRules.Lists`, `AliasRules.Edge`: the graph of static rules.
- `AliasRules.History.detects_cycles`: what this means for rules with a past.
-/

namespace AtomicCss.AliasRules

open Reading Relation

variable {α β : Type} {kind : AliasKind} {name? : α → Option String}
  {lookup? : String → Option (List α)} {b : Nat} {path : List String} {input : String}

/-! ## Cycles below an input -/

/-- The input leads to a name that leads back to itself. -/
def Circular (name? : α → Option String) (lookup? : String → Option (List α))
    (input : String) : Prop :=
  ∃ z, ReflTransGen (Mentions name? lookup?) input z ∧ TransGen (Mentions name? lookup?) z z

/-- What succeeds has unfolded all that the input leads to. -/
theorem exists_unfold_of_reach {full : Option (List α)} {z : String}
    (h : Gives (unfold kind name? lookup? b path input) (.ok full))
    (hz : ReflTransGen (Mentions name? lookup?) input z) :
    ∃ c path' inner, Gives (unfold kind name? lookup? c path' z) (.ok inner) := by
  induction hz with
  | refl => exact ⟨b, path, full, h⟩
  | tail _ hmentions ih =>
    obtain ⟨_ | c, path', inner, hinner⟩ := ih
    · exact absurd hinner not_gives_unfold_zero
    · obtain ⟨inner', hinner'⟩ := exists_unfold_of_mentions hinner hmentions
      exact ⟨c, _, inner', hinner'⟩

theorem not_circular_of_unfold_ok {full : Option (List α)}
    (h : Gives (unfold kind name? lookup? b path input) (.ok full)) :
    ¬ Circular name? lookup? input := by
  rintro ⟨z, hz, hcycle⟩
  obtain ⟨c, path', inner, hinner⟩ := exists_unfold_of_reach h hz
  exact not_transGen_self_of_unfold hinner hcycle

/-- An unfolding inside a path that leads to the input fails only below a cycle. -/
theorem circular_of_unfold_error {e : Error} (hpath : LeadTo name? lookup? path input)
    (h : Gives (unfold kind name? lookup? b path input) (.error e)) :
    Circular name? lookup? input := by
  induction b generalizing path input with
  | zero => exact absurd h not_gives_unfold_zero
  | succ b ih =>
    rcases unfold_error_cases h with ⟨hmem, -⟩ | ⟨-, y, hy, herror⟩
    · exact ⟨input, .refl, hpath input hmem⟩
    · obtain ⟨z, hz, hcycle⟩ := ih (hpath.mentions hy) herror
      exact ⟨z, .head hy hz, hcycle⟩

/-! ## Chains -/

/-- A chain of names from the input on, each in relation to the one before, in which only
the last name has occurred before. -/
structure Closes (r : String → String → Prop) (input : String) (chain : List String) :
    Prop where
  starts : chain.head? = some input
  linked : chain.IsChain r
  distinct : chain.dropLast.Nodup
  repeats : ∃ last, chain = chain.dropLast ++ [last] ∧ last ∈ chain.dropLast

/-- The chain of an error goes on behind the path, and closes there or in the path. -/
theorem exists_names_of_unfold_error {e : Error} (hnodup : path.Nodup)
    (h : Gives (unfold kind name? lookup? b path input) (.error e)) :
    ∃ names last, e = .cyclic kind (path ++ names ++ [last]) ∧
      (names ++ [last]).head? = some input ∧
      (names ++ [last]).IsChain (Mentions name? lookup?) ∧
      (path ++ names).Nodup ∧ last ∈ path ++ names := by
  induction b generalizing path input with
  | zero => exact absurd h not_gives_unfold_zero
  | succ b ih =>
    rcases unfold_error_cases h with ⟨hmem, rfl⟩ | ⟨hmem, y, hy, herror⟩
    · exact ⟨[], input, by simp, rfl, .singleton _, by simpa using hnodup, by simpa using hmem⟩
    · have hnodup' : (path ++ [input]).Nodup := by
        rw [← List.concat_eq_append]
        exact List.Nodup.concat hmem hnodup
      obtain ⟨names, last, rfl, hhead, hlinked, hdistinct, hlast⟩ := ih hnodup' herror
      rw [List.append_assoc, List.singleton_append] at hdistinct hlast
      refine ⟨input :: names, last, by simp, rfl, ?_, hdistinct, hlast⟩
      rw [List.cons_append, List.isChain_cons]
      refine ⟨fun x hx => ?_, hlinked⟩
      rw [hhead] at hx
      exact Option.some.inj hx ▸ hy

/-- The only error of an unfolding with nothing around it is a chain that closes. -/
theorem closes_of_unfold_error {e : Error}
    (h : Gives (unfold kind name? lookup? b [] input) (.error e)) :
    ∃ chain, e = .cyclic kind chain ∧ Closes (Mentions name? lookup?) input chain := by
  obtain ⟨names, last, rfl, hhead, hlinked, hdistinct, hlast⟩ :=
    exists_names_of_unfold_error List.nodup_nil h
  refine ⟨names ++ [last], rfl, hhead, hlinked, ?_, last, ?_, ?_⟩
  · rwa [List.dropLast_concat]
  · rw [List.dropLast_concat]
  · rwa [List.dropLast_concat]

/-! ## The graph of static rules -/

/-- The rule in force for `x`, the first one for this input, lists an element with the name
`y`. -/
def Lists (name? : α → Option String) (rules : List (StaticRule (List α))) (x y : String) :
    Prop :=
  ∃ rule, rules.find? (fun rule => rule.input = x) = some rule ∧
    ∃ a ∈ rule.resolved, name? a = some y

/-- An edge of the graph: `x` lists `y`, for which there is a rule, too. -/
def Edge (name? : α → Option String) (rules : List (StaticRule (List α))) (x y : String) :
    Prop :=
  Lists name? rules x y ∧ ∃ rule ∈ rules, rule.input = y

/-- Where no two rules are for the same input, every rule is in force. -/
theorem find?_input_eq_some_iff {rules : List (StaticRule (List α))}
    (h : (rules.map StaticRule.input).Nodup) {x : String} {rule : StaticRule (List α)} :
    rules.find? (fun rule => rule.input = x) = some rule ↔ rule ∈ rules ∧ rule.input = x := by
  constructor
  · exact fun hsome => ⟨List.mem_of_find?_eq_some hsome, by simpa using List.find?_some hsome⟩
  · rintro ⟨hmem, hinput⟩
    obtain ⟨rule', hrule'⟩ : ∃ rule', rules.find? (fun rule => rule.input = x) = some rule' :=
      Option.isSome_iff_exists.1 (List.find?_isSome.2 ⟨rule, hmem, by simpa using hinput⟩)
    have hinput' : rule'.input = x := by simpa using List.find?_some hrule'
    rw [hrule', List.inj_on_of_nodup_map h (List.mem_of_find?_eq_some hrule') hmem
      (hinput'.trans hinput.symm)]

/-- Then the edges are all those from the input of a rule to what it lists. -/
theorem edge_iff_of_nodup {rules : List (StaticRule (List α))}
    (h : (rules.map StaticRule.input).Nodup) {x y : String} :
    Edge name? rules x y ↔ ∃ rule ∈ rules, rule.input = x ∧
      (∃ a ∈ rule.resolved, name? a = some y) ∧ ∃ rule' ∈ rules, rule'.input = y := by
  simp only [Edge, Lists, find?_input_eq_some_iff h]
  constructor
  · rintro ⟨⟨rule, ⟨hmem, hinput⟩, hlists⟩, hy⟩
    exact ⟨rule, hmem, hinput, hlists, hy⟩
  · rintro ⟨rule, hmem, hinput, hlists, hy⟩
    exact ⟨⟨rule, ⟨hmem, hinput⟩, hlists⟩, hy⟩

section

variable {r : AliasRules (List α)} {x y z : String}

theorem lookup_eq_of_static (hr : r.patterns = []) (x : String) :
    r.lookup? x =
      (r.statics.values.find? fun rule => rule.input = x).map StaticRule.resolved := by
  unfold lookup?
  rw [hr]
  cases r.statics.values.find? fun rule => rule.input = x <;> rfl

theorem mentions_iff_lists (hr : r.patterns = []) :
    Mentions name? r.lookup? x y ↔ Lists name? r.statics.values x y := by
  simp only [Mentions, Lists, lookup_eq_of_static hr, Option.map_eq_some_iff]
  constructor
  · rintro ⟨_, ⟨rule, hrule, rfl⟩, hy⟩
    exact ⟨rule, hrule, hy⟩
  · rintro ⟨rule, hrule, hy⟩
    exact ⟨_, ⟨rule, hrule, rfl⟩, hy⟩

theorem edge_iff_mentions (hr : r.patterns = []) :
    Edge name? r.statics.values x y ↔ Mentions name? r.lookup? x y ∧ r.lookup? y ≠ none := by
  rw [Edge, mentions_iff_lists hr, lookup_eq_of_static hr, ne_eq, Option.map_eq_none_iff,
    List.find?_eq_none]
  simp

/-- What leads to an input with an answer leads to it from rule to rule. -/
theorem reach_edge_of_reach (hr : r.patterns = [])
    (h : ReflTransGen (Mentions name? r.lookup?) x z) (hz : r.lookup? z ≠ none) :
    ReflTransGen (Edge name? r.statics.values) x z := by
  induction h with
  | refl => exact .refl
  | tail _ hmentions ih =>
    exact .tail (ih (lookup_ne_none_of_transGen (.single hmentions)))
      ((edge_iff_mentions hr).2 ⟨hmentions, hz⟩)

/-- A cycle is one of rules: all names on it have answers. -/
theorem circular_iff_edge (hr : r.patterns = []) :
    Circular name? r.lookup? x ↔ ∃ z, ReflTransGen (Edge name? r.statics.values) x z ∧
      TransGen (Edge name? r.statics.values) z z := by
  have hmono {x y : String} (h : Edge name? r.statics.values x y) :
      Mentions name? r.lookup? x y := ((edge_iff_mentions hr).1 h).1
  constructor
  · rintro ⟨z, hreach, hcycle⟩
    have hz := lookup_ne_none_of_transGen hcycle
    obtain ⟨y, hy, hback⟩ := TransGen.tail'_iff.1 hcycle
    have hedge := (edge_iff_mentions hr).2 ⟨hback, hz⟩
    have hy := reach_edge_of_reach hr hy (lookup_ne_none_of_transGen (.single hback))
    exact ⟨z, reach_edge_of_reach hr hreach hz, .tail' hy hedge⟩
  · rintro ⟨z, hreach, hcycle⟩
    exact ⟨z, ReflTransGen.mono (fun _ _ => hmono) _ _ hreach,
      TransGen.mono (fun _ _ => hmono) _ _ hcycle⟩

end

/-! ## Rules with a past -/

/-- The rules `r`, which have a past, expand the input as static rules should: with more
budget than there are rules the expansion ends; it is an error if and only if a cycle of
rules can be reached from the input; and the error names a chain that closes, each name in
the rule of the one before. -/
structure DetectsCycles (kind : AliasKind) (name? : α → Option String)
    (deep : Nat → String → Walk (AliasRules (List α)) β) (fresh r : AliasRules (List α))
    (input : String) : Prop where
  ends : ∀ {b}, fresh.statics.length < b → ∃ result r', deep b input r = some (result, r')
  cyclic_iff : ∀ {b result r'}, deep b input r = some (result, r') →
    ((∃ chain, result = .error (.cyclic kind chain)) ↔
      ∃ z, ReflTransGen (Edge name? fresh.statics.values) input z ∧
        TransGen (Edge name? fresh.statics.values) z z)
  closes : ∀ {b e r'}, deep b input r = some (.error e, r') →
    ∃ chain, e = .cyclic kind chain ∧ Closes (Lists name? fresh.statics.values) input chain

/-- What rules with a past come to, the unfolding gives. -/
theorem History.exists_unfold {kind : AliasKind} {fresh r r' : AliasRules (List kind.Element)}
    (hfresh : fresh.memo = {}) (h : History kind.expand fresh r)
    {result : Except Error kind.Expansion} (hcall : kind.expand b input r = some (result, r')) :
    ∃ c answer, Gives (unfold kind kind.name? fresh.lookup? c [] input) answer ∧
      result = answer.map (kind.view input) := by
  obtain ⟨o, hexpand, rfl⟩ := AliasKind.expand_eq_some.1 hcall
  have hsound := h.sound AliasKind.expand_eq_some hfresh
  obtain ⟨-, ⟨c, hc⟩, -⟩ := expand_done hsound (.nil _ _ _) hexpand
  exact ⟨c, o, hc, rfl⟩

/-- Cycle detection is sound and complete for static rules. Whatever selectors, or whatever
shortcuts, have been expanded before, an expansion ends, reports a cycle if and only if one
of rules can be reached from the input, and reports it with a chain that closes. Where no two
rules are for the same input, the edges of the graph are all those from the input of a rule
to what it lists. -/
theorem History.detects_cycles (kind : AliasKind) {fresh r : AliasRules (List kind.Element)}
    (hfresh : fresh.memo = {}) (hstatic : fresh.patterns = []) (h : History kind.expand fresh r)
    (input : String) :
    DetectsCycles kind kind.name? kind.expand fresh r input ∧
      ((fresh.statics.values.map StaticRule.input).Nodup → ∀ x y,
        Edge kind.name? fresh.statics.values x y ↔
          ∃ rule ∈ fresh.statics.values, rule.input = x ∧
            (∃ a ∈ rule.resolved, kind.name? a = some y) ∧
            ∃ rule' ∈ fresh.statics.values, rule'.input = y) := by
  refine ⟨⟨?ends, ?cyclic, ?closes⟩, fun hrules x y => edge_iff_of_nodup hrules⟩
  case ends =>
    intro b hb
    obtain ⟨answer, hanswer⟩ : ∃ answer,
        Gives (unfold kind kind.name? fresh.lookup? b [] input) answer :=
      exists_unfold_of_static hstatic hb input
    obtain ⟨r', hr'⟩ := (h.exact_of_expand AliasKind.expand_eq_some hfresh hanswer).gives
    exact ⟨_, r', hr'⟩
  case cyclic =>
    intro b result r' hcall
    obtain ⟨c, answer, hanswer, rfl⟩ := h.exists_unfold hfresh hcall
    rw [← circular_iff_edge hstatic]
    cases answer with
    | ok full =>
      refine iff_of_false ?_ (not_circular_of_unfold_ok hanswer)
      rintro ⟨chain, heq⟩
      cases heq
    | error e =>
      obtain ⟨chain, rfl⟩ := exists_chain_of_unfold_error hanswer
      exact iff_of_true ⟨chain, rfl⟩ (circular_of_unfold_error (.nil _ _ _) hanswer)
  case closes =>
    intro b e r' hcall
    obtain ⟨c, answer, hanswer, heq⟩ := h.exists_unfold hfresh hcall
    cases answer with
    | ok full => cases heq
    | error e' =>
      obtain rfl := Except.error.inj heq
      obtain ⟨chain, rfl, hchain⟩ := closes_of_unfold_error hanswer
      exact ⟨chain, rfl, hchain.starts, hchain.linked.imp fun _ _ => (mentions_iff_lists hstatic).1,
        hchain.distinct, hchain.repeats⟩

/-- A name that two branches share, and one that leads to itself behind it. -/
def diamond : AliasRules (List String) where
  statics := [("a", ⟨"a", "a", ["b", "c"]⟩), ("b", ⟨"b", "b", ["d"]⟩),
    ("c", ⟨"c", "c", ["d", "&.c"]⟩), ("d", ⟨"d", "d", ["&:hover"]⟩), ("x", ⟨"x", "x", ["a", "x"]⟩)]

/-- After a simple lookup and an error the shared name is still no cycle, and the other one
still is. -/
theorem History.detects_cycles_diamond :
    ∃ asked, History (AliasKind.expand .selector) diamond asked ∧
      (∀ input, DetectsCycles .selector some expandSelector diamond asked input) ∧
      (¬ ∃ z, ReflTransGen (Edge some diamond.statics.values) "a" z ∧
        TransGen (Edge some diamond.statics.values) z z) ∧
      (∃ z, ReflTransGen (Edge some diamond.statics.values) "x" z ∧
        TransGen (Edge some diamond.statics.values) z z) ∧
      Edge some diamond.statics.values "c" "d" ∧
      ∀ name, DetectsCycles .shortcut StyleItem.shortcut? expandShortcut {} {} name := by
  have hfailed : (expandSelector 6 "x" (diamond.resolve "c").2).map Prod.fst =
      some (.error (.cyclic .selector ["x", "x"])) := by rfl
  obtain ⟨⟨_, asked⟩, hcall, rfl⟩ := Option.map_eq_some_iff.1 hfailed
  have hasked : History (AliasKind.expand .selector) diamond asked :=
    .expanded (.lookedUp "c" .start) hcall
  have hdetects := History.detects_cycles .selector rfl rfl hasked
  have hexpanded : ((expandSelector 6 "x" (diamond.resolve "c").2).bind fun call =>
      expandSelector 6 "a" call.2).map Prod.fst =
        some (.ok ["&:hover", "&:hover", "&.c"]) := by rfl
  rw [hcall, Option.bind_some] at hexpanded
  obtain ⟨⟨_, later⟩, hcall', rfl⟩ := Option.map_eq_some_iff.1 hexpanded
  have hfailedAgain : ((expandSelector 6 "x" (diamond.resolve "c").2).bind fun call =>
      expandSelector 6 "x" call.2).map Prod.fst =
        some (.error (.cyclic .selector ["x", "x"])) := by rfl
  rw [hcall, Option.bind_some] at hfailedAgain
  obtain ⟨⟨_, latest⟩, hcall'', rfl⟩ := Option.map_eq_some_iff.1 hfailedAgain
  refine ⟨asked, hasked, fun input => (hdetects input).1, fun hcycle => ?_,
    ((hdetects "x").1.cyclic_iff hcall'').1 ⟨_, rfl⟩, ?_,
    fun name => (History.detects_cycles .shortcut rfl rfl .start name).1⟩
  · obtain ⟨chain, heq⟩ := ((hdetects "a").1.cyclic_iff hcall').2 hcycle
    cases heq
  · exact ((hdetects "c").2 (by decide) "c" "d").2
      ⟨⟨"c", "c", ["d", "&.c"]⟩, by decide, rfl, ⟨"d", by decide, rfl⟩,
        ⟨"d", "d", ["&:hover"]⟩, by decide, rfl⟩

end AtomicCss.AliasRules
