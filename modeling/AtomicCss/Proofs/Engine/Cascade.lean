import AtomicCss.Proofs.Engine.Naming
import AtomicCss.Proofs.Stylesheet.Writing
import Mathlib.Data.List.Flatten
import Mathlib.Data.List.Induction
import Mathlib.Data.List.Infix

/-!
# The order of a stylesheet is stable

Rules that come later are written into the groups of those that were there before, at any
depth and in the middle of the text. They never change the order of what was written: the
places of a stylesheet come in the same order in the stylesheet of more rules, and so does
what any two rules of an engine say, whenever all rules are rendered.

- `pair_sublist_iff`: two elements come in the same order in a list and in its sublists.
- `Block.placed_sublist_append`: more entries keep the order of the places of a tree.
- `Stylesheet.Precedes`: what one rule says stands in front of what another one says.
- `Engine.Run.order_kept`: more rules, and any calls of an engine, keep this order.
-/

namespace AtomicCss

open scoped List

/-! ## Orders inside orders -/

section

variable {α : Type} [DecidableEq α] {l l' : List α} {a b : α}

theorem distinct_isPrefix_append (xs ys : List α) : distinct xs <+: distinct (xs ++ ys) := by
  induction ys using List.reverseRecOn with
  | nil => rw [List.append_nil]
  | append_singleton ys y ih =>
    rw [← List.append_assoc, distinct_append_singleton, pushNew]
    split
    · exact ih
    · exact ih.trans (List.prefix_append _ _)

/-- Of a list without repetitions a sublist is known from its elements. -/
theorem filter_mem_of_sublist (h : l <+ l') (hl' : l'.Nodup) : l'.filter (· ∈ l) = l := by
  induction h with
  | slnil => rfl
  | cons x h ih =>
    obtain ⟨hx, hl'⟩ := List.nodup_cons.1 hl'
    rw [List.filter_cons_of_neg (by simpa using fun hmem => hx (h.subset hmem)), ih hl']
  | @cons_cons l l' x h ih =>
    obtain ⟨hx, hl'⟩ := List.nodup_cons.1 hl'
    have hrest : l'.filter (· ∈ x :: l) = l'.filter (· ∈ l) := by
      refine List.filter_congr fun y hy => ?_
      have hne : y ≠ x := fun heq => hx (heq ▸ hy)
      simp [hne]
    rw [List.filter_cons_of_pos (by simp), hrest, ih hl']

/-- Two elements of the smaller list come in the same order in both. -/
theorem pair_sublist_iff (h : l <+ l') (hl' : l'.Nodup) (ha : a ∈ l) (hb : b ∈ l) :
    [a, b] <+ l' ↔ [a, b] <+ l := by
  refine ⟨fun hpair => ?_, fun hpair => hpair.trans h⟩
  have hfilter := hpair.filter (· ∈ l)
  rw [filter_mem_of_sublist h hl'] at hfilter
  simpa [ha, hb] using hfilter

end

/-! ## More entries -/

namespace Block

variable {entries more : List (List String × String)} {selector : String}

theorem group_append (selector : String) (entries more : List (List String × String)) :
    group selector (entries ++ more) = group selector entries ++ group selector more :=
  List.filterMap_append

theorem heads_isPrefix_append (entries more : List (List String × String)) :
    heads entries <+: heads (entries ++ more) := by
  rw [heads, heads, List.filterMap_append]
  exact distinct_isPrefix_append _ _

theorem ending_isPrefix_append (entries more : List (List String × String)) :
    ending entries <+: ending (entries ++ more) := by
  rw [ending, ending, List.filter_append, List.map_append]
  exact distinct_isPrefix_append _ _

/-- What was placed in a tree is placed in the same order in the tree of more entries:
bodies go behind the bodies of a block, blocks behind its blocks, and what is left goes
into the blocks that are there. -/
theorem placed_sublist_append (path : List String) (entries more : List (List String × String)) :
    Token.placed path (ofEntries entries).tokens <+
      Token.placed path (ofEntries (entries ++ more)).tokens := by
  induction entries using grouping_induct generalizing path more with
  | step entries ih =>
    rw [placed_ofEntries, placed_ofEntries path (entries ++ more)]
    refine ((ending_isPrefix_append entries more).sublist.map _).append ?_
    have hgroups : ∀ selector ∈ heads entries,
        Token.placed (path ++ [selector]) (ofEntries (group selector entries)).tokens <+
          Token.placed (path ++ [selector])
            (ofEntries (group selector (entries ++ more))).tokens := by
      intro selector hselector
      rw [group_append]
      exact ih selector hselector _ _
    exact (List.Sublist.flatMap_right _ hgroups).trans
      ((heads_isPrefix_append entries more).sublist.flatMap _)

end Block

namespace Stylesheet

theorem entries_append (rules more : List AtomicRule) :
    entries (rules ++ more) = entries rules ++ entries more := by
  rw [entries, List.filter_append, List.map_append]
  rfl

/-- More rules keep the order of what is placed in a stylesheet. -/
theorem placed_tokens_sublist (rules more : List AtomicRule) :
    Token.placed [] (tokens rules) <+ Token.placed [] (tokens (rules ++ more)) := by
  rw [tokens, tokens, ← tokens_ofEntries ne_nil_of_mem_entries,
    ← tokens_ofEntries ne_nil_of_mem_entries, entries_append]
  exact Block.placed_sublist_append [] (entries rules) (entries more)

/-- What the first rule says is written in front of what the second one says. -/
def Precedes (rules : List AtomicRule) (r r' : AtomicRule) : Prop :=
  [(r.namedChain, r.declaration.body), (r'.namedChain, r'.declaration.body)] <+
    Token.placed [] (tokens rules)

/-- More rules keep the order of any two rules that are written. -/
theorem precedes_append_iff {rules : List AtomicRule} (more : List AtomicRule)
    {r r' : AtomicRule} (hr : r ∈ rules) (hrenderable : r.declaration.isRenderable = true)
    (hr' : r' ∈ rules) (hrenderable' : r'.declaration.isRenderable = true) :
    Precedes (rules ++ more) r r' ↔ Precedes rules r r' :=
  pair_sublist_iff (placed_tokens_sublist rules more)
    (nodup_placed_tokensOf ne_nil_of_mem_entries) (mem_placed_tokens hr hrenderable)
    (mem_placed_tokens hr' hrenderable')

end Stylesheet

/-! ## Engines -/

namespace Engine

variable {σ : Type}

open Stylesheet

/-- Later rules never reorder earlier ones. The text of a stylesheet is that of its
tokens, and what these place is placed in the same order in the stylesheet of more rules.
Along every run of a new engine the rendered stylesheet only grows in this way, and of two
rules that can be written one precedes the other in every later stylesheet exactly if it
does so in the first one that has both. -/
theorem Run.order_kept :
    (∀ rules more, (render rules).toList = Token.spell (tokens rules) ∧
      Token.placed [] (tokens rules) <+ Token.placed [] (tokens (rules ++ more))) ∧
    ∀ {config : EngineConfig σ} {shared : σ} {e₀ e e' : Engine σ} {warnings : List Warning}
      {events later : List (Event σ)},
      create config shared = some (.ok (e₀, warnings)) → Run e₀ events e → Run e later e' →
        (∃ preflights, e'.renderStyles.toList =
          preflights ++ Token.spell (tokens e'.store.rules)) ∧
        Token.placed [] (tokens e.store.rules) <+ Token.placed [] (tokens e'.store.rules) ∧
        ∀ r ∈ e.store.rules, r.declaration.isRenderable = true →
          ∀ r' ∈ e.store.rules, r'.declaration.isRenderable = true →
            (Precedes e'.store.rules r r' ↔ Precedes e.store.rules r r') := by
  refine ⟨fun rules more => ⟨(spell_tokens rules).symm, placed_tokens_sublist rules more⟩, ?_⟩
  intro config shared e₀ e e' warnings events later hcreate hrun hlater
  obtain ⟨he, -⟩ := hrun.canonical (storeCanonical_of_create hcreate)
  obtain ⟨-, hext⟩ := hlater.canonical he
  have htext : e'.renderStyles.toList =
      (String.join (e'.config.preflights.map fun p => p.text e'.snapshot)).toList ++
        Token.spell (tokens e'.store.rules) := by
    rw [renderStyles, String.toList_append, spell_tokens]
  obtain ⟨more, hrules⟩ := hext.rules
  refine ⟨⟨_, htext⟩, ?_⟩
  rw [← hrules]
  exact ⟨placed_tokens_sublist _ _, fun r hr hrenderable r' hr' hrenderable' =>
    precedes_append_iff more hr hrenderable hr' hrenderable'⟩

/-- What the engine without plugins is asked first: red text under a condition, and blue
text. -/
def darkThenBlue : List StyleItem :=
  [.definition [("@dark", .nested [("color", .property (.scalar (.text "red")))]),
    ("color", .property (.scalar (.text "blue")))]]

/-- What it is asked next: green text under the same condition. -/
def darkHover : List StyleItem :=
  [.definition [("@dark", .nested [("&:hover",
    .nested [("color", .property (.scalar (.text "green")))])])]]

/-- The rule for green text is written between the two that were there before, which keep
their order. -/
theorem Run.order_kept_dark :
    let red : AtomicRule := ⟨"x-a", ⟨["@dark", ".$$"], "color", ["red"]⟩⟩
    let blue : AtomicRule := ⟨"x-b", ⟨[".$$"], "color", ["blue"]⟩⟩
    let green : AtomicRule := ⟨"x-c", ⟨["@dark", ".$$:hover"], "color", ["green"]⟩⟩
    create { draft := { namePrefix := some "x-" } } () = some (.ok (plain, [])) ∧
      ∃ e e' answer answer', Run plain [e.event (.use darkThenBlue) answer] e ∧
        Run e [e'.event (.use darkHover) answer'] e' ∧ e.store.rules = [red, blue] ∧
        Token.placed [] (tokens e'.store.rules) = [(["@dark", ".x-a"], "color:red"),
          (green.namedChain, "color:green"), ([".x-b"], "color:blue")] ∧
        Precedes e.store.rules red blue ∧ Precedes e'.store.rules red blue := by
  intro red blue green
  have hcreate : create { draft := { namePrefix := some "x-" } } () =
      some (.ok (plain, [])) := by rfl
  have hrules : ((Call.perform 3 (.use darkThenBlue) plain).bind fun x =>
      (Call.perform 3 (.use darkHover) x.2).map fun y => (x.2.store.rules, y.2.store.rules)) =
        some ([red, blue], [red, blue, green]) := by decide +kernel
  obtain ⟨⟨answer, e⟩, hfirst, hrules⟩ := Option.bind_eq_some_iff.1 hrules
  obtain ⟨⟨answer', e'⟩, hnext, hrules⟩ := Option.map_eq_some_iff.1 hrules
  obtain ⟨he, he'⟩ : e.store.rules = [red, blue] ∧ e'.store.rules = [red, blue, green] :=
    Prod.mk.inj hrules
  have hrun : Run plain [e.event (.use darkThenBlue) answer] e := .cons hfirst (.nil _)
  have hlater : Run e [e'.event (.use darkHover) answer'] e' := .cons hnext (.nil _)
  have hprecedes : Precedes e.store.rules red blue := by
    rw [he]
    show List.Sublist _ _
    decide +kernel
  have hplaced : Token.placed [] (tokens e'.store.rules) = [(["@dark", ".x-a"], "color:red"),
      (green.namedChain, "color:green"), ([".x-b"], "color:blue")] := by
    rw [he']
    decide +kernel
  have horder := (Run.order_kept.2 hcreate hrun hlater).2.2 red (by simp [he]) (by decide) blue
    (by simp [he]) (by decide)
  exact ⟨hcreate, e, e', _, _, hrun, hlater, he, hplaced, hprecedes, horder.2 hprecedes⟩

end Engine

end AtomicCss
