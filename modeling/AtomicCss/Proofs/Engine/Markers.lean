import AtomicCss.Proofs.Engine.Naming
import AtomicCss.Proofs.Selector.Filling
import AtomicCss.Proofs.Stylesheet.Writing
import Mathlib.Data.List.Infix

/-!
# Stylesheets without name markers

Where the prefix of an engine has no name marker in it, no name of a rule has one, because
a name is the prefix and a numeral. So no selector of the stylesheet has one, whatever the
plugins have made of the chains and however many dollar signs stand in them.

- `Engine.unmarked_name`: the names of rules.
- `Stylesheet.unmarked_of_opening`: the selectors of rules with such names.
- `Engine.Run.no_marker_left`: the selectors of a stylesheet, and the name in the innermost
  selector of each rule.
-/

namespace AtomicCss

open Selector

/-- A selector with the name of its rule filled in has no name marker. -/
theorem Stylesheet.unmarked_of_opening {rules : List AtomicRule}
    (h : ∀ r ∈ rules, Unmarked r.name.toList) {selector : String}
    (hselector : .opening selector ∈ tokens rules) : hasName selector.toList = false := by
  obtain ⟨r, hr, -, hchain⟩ := exists_rule_of_opening hselector
  obtain ⟨s, -, rfl⟩ := List.mem_map.1 hchain
  rw [named, String.toList_ofList]
  exact hasName_fillName (h r hr) s.toList

/-- The innermost selector of a rule that can be written has the name of the rule in it. -/
theorem AtomicRule.exists_innermost {r : AtomicRule} (h : r.declaration.isRenderable = true) :
    ∃ outer innermost, r.namedChain = outer ++ [innermost] ∧
      r.name.toList <:+: innermost.toList := by
  obtain ⟨s, hlast, hname⟩ := Declaration.isRenderable_iff.1 h
  obtain ⟨outer, hchain⟩ := List.getLast?_eq_some_iff.1 hlast
  refine ⟨outer.map (named r.name), named r.name s, ?_, ?_⟩
  · rw [namedChain, hchain, List.map_append, List.map_singleton]
  · rw [named, String.toList_ofList]
    exact isInfix_fillName hname

namespace Engine

variable {σ : Type}

/-- The names of the rules of an engine have no marker if its prefix has none. -/
theorem unmarked_name {e : Engine σ} (he : e.StoreCanonical)
    (hfree : hasName e.config.namePrefix.toList = false) :
    ∀ r ∈ e.store.rules, Unmarked r.name.toList := by
  intro r hr
  obtain ⟨i, hi, rfl⟩ := List.mem_iff_getElem.1 hr
  rw [Store.name_rules_getElem he hi, String.toList_append]
  exact Numeral.unmarked_append_ofNat hfree i

/-- Full renders leave no name marker behind. Let `e` be an engine that a new engine has
become, with any plugins, whose prefix does not hold `$$`. No selector that is written in
its stylesheet holds `$$`, and every rule that is written stands in a block whose own
selector holds the name of the rule. -/
theorem Run.no_marker_left {config : EngineConfig σ} {shared : σ} {e₀ e : Engine σ}
    {warnings : List Warning} {events : List (Event σ)}
    (hcreate : create config shared = some (.ok (e₀, warnings)))
    (hfree : ¬ ['$', '$'] <:+: e₀.config.namePrefix.toList) (hrun : Run e₀ events e) :
    (Stylesheet.render e.store.rules).toList =
        Token.spell (Stylesheet.tokens e.store.rules) ∧
      (∀ selector, .opening selector ∈ Stylesheet.tokens e.store.rules →
        ¬ ['$', '$'] <:+: selector.toList) ∧
      ∀ r ∈ e.store.rules, r.declaration.isRenderable = true →
        ∃ outer innermost,
          (outer ++ [innermost], r.declaration.body) ∈
            Token.placed [] (Stylesheet.tokens e.store.rules) ∧
          r.namedChain = outer ++ [innermost] ∧ r.name.toList <:+: innermost.toList := by
  obtain ⟨he, hext⟩ := hrun.canonical (storeCanonical_of_create hcreate)
  rw [← hasName_iff_isInfix, Bool.not_eq_true, ← hext.config] at hfree
  refine ⟨(Stylesheet.spell_tokens _).symm, fun selector hselector => ?_, fun r hr hr' => ?_⟩
  · rw [← hasName_iff_isInfix, Bool.not_eq_true]
    exact Stylesheet.unmarked_of_opening (unmarked_name he hfree) hselector
  · obtain ⟨outer, innermost, hchain, hname⟩ := AtomicRule.exists_innermost hr'
    exact ⟨outer, innermost, hchain ▸ Stylesheet.mem_placed_tokens hr hr', hchain, hname⟩

/-- A plugin that replaces every chain by one with runs of dollar signs. -/
def dollarPlugin : Plugin Unit :=
  .custom { name := "dollars", selectors := fun _ s => (.ok (some ["@$$$", "$$$ > $$$$"]), s) }

/-- The new engine with this plugin, whose prefix is a dollar sign. -/
def dollarEngine : Engine Unit where
  config := { namePrefix := "$" }
  pipeline := ⟨[dollarPlugin], ()⟩

/-- Red text, used in this engine, stands in selectors with single dollar signs only. -/
theorem Run.no_marker_left_dollars :
    let red : AtomicRule := ⟨"$a", ⟨["@$$$", "$$$ > $$$$"], "color", ["red"]⟩⟩
    let call : Call Unit := .use [.definition [("color", .property (.scalar (.text "red")))]]
    create { draft := { namePrefix := some "$" }, plugins := [.plugin dollarPlugin] } () =
        some (.ok (dollarEngine, [])) ∧
      ¬ ['$', '$'] <:+: dollarEngine.config.namePrefix.toList ∧
      ∃ e answer, Run dollarEngine [e.event call answer] e ∧ e.store.rules = [red] ∧
        Stylesheet.tokens e.store.rules = [.opening "@$a$", .opening "$a$ > $a$a",
          .body "color:red", .closing, .closing] ∧
        ¬ ['$', '$'] <:+: "$a$ > $a$a".toList := by
  intro red call
  have hcreate : create { draft := { namePrefix := some "$" }, plugins := [.plugin dollarPlugin] }
      () = some (.ok (dollarEngine, [])) := by rfl
  have hfree : ¬ ['$', '$'] <:+: dollarEngine.config.namePrefix.toList := by decide
  have hrules : (call.perform 1 dollarEngine).map (fun x => x.2.store.rules) =
      some [red] := by decide +kernel
  obtain ⟨⟨answer, e⟩, hcall, he⟩ := Option.map_eq_some_iff.1 hrules
  have he : e.store.rules = [red] := he
  have hrun : Run dollarEngine [e.event call answer] e := .cons hcall (.nil _)
  have htokens : Stylesheet.tokens e.store.rules = [.opening "@$a$", .opening "$a$ > $a$a",
      .body "color:red", .closing, .closing] := by
    rw [he]
    decide +kernel
  refine ⟨hcreate, hfree, e, _, hrun, he, htokens, ?_⟩
  exact (Run.no_marker_left hcreate hfree hrun).2.1 _ (by simp [htokens])

end Engine

end AtomicCss
