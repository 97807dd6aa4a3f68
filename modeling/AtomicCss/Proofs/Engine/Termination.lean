import AtomicCss.Proofs.Engine.Traces
import AtomicCss.Proofs.Extraction.Inside
import Mathlib.Algebra.GroupWithZero.Nat

/-!
# Which calls end

An engine with the bundled plugins and static rules only answers a call unless its
items loop: unless they lead to a definition that leads to itself through the items
under one of its keys. Cycles within the answers of shortcuts, or of selectors, are
errors, and no other errors occur.

- `Engine.aliasBudget`: a budget within which every alias is unfolded.
- `Engine.Run.ends_iff_not_loops`: the calls that end, and what they end with.
- `Engine.hover_never_ends`: a call that does not end.
-/

namespace AtomicCss

open Reading AliasRules Relation

variable {σ : Type}

/-! ## New engines with static rules -/

/-- The number of static rules of a plugin. -/
def Plugin.staticCount : Plugin σ → Nat
  | .selectors rules => rules.statics.length
  | .shortcuts rules => rules.statics.length
  | _ => 0

namespace Engine

/-- A budget for the aliases of an engine with static rules. -/
def aliasBudget (e : Engine σ) : Nat := (e.pipeline.plugins.map Plugin.staticCount).sum + 1

/-- In a new engine with the bundled plugins every alias is unfolded within the alias
budget, and finitely many shortcuts have an answer. -/
theorem enough_of_create {draft : Draft} {shared : σ} {e : Engine σ} {warnings : List Warning}
    (h : create ⟨draft, [.core]⟩ shared = some (.ok (e, warnings))) :
    e.vocabulary.Enough e.aliasBudget ∧ ∃ answers : List (List StyleItem), ∀ name answer,
      e.vocabulary.shortcut? name = some answer → answer ∈ answers := by
  rw [← PluginOption.coreWith_nil] at h
  obtain ⟨config, aliases, shortcuts, declared, important, rfl, -, ha, -, hs⟩ :=
    create_coreWith h
  rw [vocabulary_bundled]
  have hbudget : aliases.statics.length + shortcuts.statics.length < aliasBudget (σ := σ)
      { config := config
        pipeline := ⟨Pipeline.bundled aliases shortcuts declared important, shared⟩ } := by
    simp [aliasBudget, Pipeline.bundled, Plugin.staticCount]
  refine ⟨⟨fun selector => ?_, fun item => ?_⟩, shortcuts.statics.values.map StaticRule.resolved,
    fun name answer hanswer => (exists_static_of_lookup hs hanswer).2⟩
  · obtain ⟨res, hres⟩ := exists_unfold_of_static ha (Nat.lt_of_le_of_lt (by omega) hbudget)
      selector
    exact exists_gives_map hres _
  · cases item with
    | definition d => exact ⟨_, gives_pure.2 rfl⟩
    | shortcut name =>
      obtain ⟨res, hres⟩ := exists_unfold_of_static hs (Nat.lt_of_le_of_lt (by omega) hbudget)
        name
      exact exists_gives_map hres _

/-! ## Calls that read items -/

variable {e e' : Engine σ} {b : Nat} {c : Call σ} {items : List StyleItem}

section

variable {v : Vocabulary} (h : e.Speaks v) (hc : c.items? = some items)

include h hc

/-- What a call comes to, the vocabulary of the engine gives. -/
theorem exists_gives_of_perform {answer : Except Error Answer}
    (hcall : c.perform b e = some (answer, e')) :
    ∃ d read, Gives (v.extractAll d items) read ∧ FailAlike answer read := by
  obtain ⟨read, e₁, hread, halike⟩ := (perform_iff_extractAll hc).1 hcall
  obtain ⟨-, d, hd⟩ := (tracks_extractAll items).answers (Alike.refl h) hread
  exact ⟨d, read, hd, halike⟩

/-- What the vocabulary of the engine gives, a call comes to. -/
theorem exists_perform_of_gives {read : Except Error (List Extracted)}
    (hr : Gives (v.extractAll b items) read) :
    ∃ answer e', c.perform b e = some (answer, e') ∧ FailAlike answer read := by
  obtain ⟨e₁, hread⟩ := (tracks_extractAll items).follows (Alike.refl h) hr
  exact (perform_iff_extractAll hc).2 hread

/-- A call comes to an answer where the vocabulary of the engine reads its items. -/
theorem perform_ends_iff :
    (∃ b r, c.perform b e = some r) ↔ ∃ b r, Gives (v.extractAll b items) r := by
  constructor
  · rintro ⟨b, ⟨answer, e'⟩, hcall⟩
    obtain ⟨d, read, hd, -⟩ := exists_gives_of_perform h hc hcall
    exact ⟨d, read, hd⟩
  · rintro ⟨b, read, hr⟩
    obtain ⟨answer, e', hcall, -⟩ := exists_perform_of_gives h hc hr
    exact ⟨b, _, hcall⟩

/-- It succeeds where the vocabulary reads them without an error. -/
theorem perform_succeeds_iff :
    (∃ b answer e', c.perform b e = some (.ok answer, e')) ↔
      ∃ b parts, Gives (v.extractAll b items) (.ok parts) := by
  constructor
  · rintro ⟨b, answer, e', hcall⟩
    obtain ⟨d, read, hd, halike⟩ := exists_gives_of_perform h hc hcall
    obtain ⟨parts, rfl⟩ := halike.exists_ok_iff.1 ⟨answer, rfl⟩
    exact ⟨d, parts, hd⟩
  · rintro ⟨b, parts, hr⟩
    obtain ⟨result, e', hcall, halike⟩ := exists_perform_of_gives h hc hr
    obtain ⟨answer, rfl⟩ := halike.exists_ok_iff.2 ⟨parts, rfl⟩
    exact ⟨b, answer, e', hcall⟩

end

/-- The calls that end. Let `e₀` be a new engine with the bundled plugins, and `e` an
engine that it has become. A use or a preview of items by `e` ends exactly if the
items do not loop. It succeeds exactly if all their steps can be taken, and the only
error is that of a cycle. That is what it ends with if one of the items is a shortcut
that leads to itself through answers. -/
theorem Run.ends_iff_not_loops {draft : Draft} {shared : σ} {e₀ e : Engine σ}
    {warnings : List Warning} {events : List (Event σ)}
    (hcreate : create ⟨draft, [.core]⟩ shared = some (.ok (e₀, warnings)))
    (hrun : Run e₀ events e) {c : Call σ} {items : List StyleItem}
    (hc : c.items? = some items) :
    ((∃ b r, c.perform b e = some r) ↔ ¬ e₀.vocabulary.Loops e₀.aliasBudget items) ∧
    ((∃ b answer e', c.perform b e = some (.ok answer, e')) ↔
      e₀.vocabulary.Clear e₀.aliasBudget (e₀.vocabulary.callSteps e₀.aliasBudget items)) ∧
    (∀ b err e', c.perform b e = some (.error err, e') → err.IsCycle) ∧
    (∀ name, .shortcut name ∈ items →
      TransGen (Mentions StyleItem.shortcut? e₀.vocabulary.shortcut?) name name →
      ¬ e₀.vocabulary.Loops e₀.aliasBudget items →
      ∃ b err e', c.perform b e = some (.error err, e') ∧ err.IsCycle) := by
  obtain ⟨henough, answers, hanswers⟩ := enough_of_create hcreate
  have hself := Alike.refl (speaks_of_create_core hcreate)
  obtain ⟨_, -, halike⟩ := hrun.thin hself (Thins.refl events)
  have hspeaks : e.Speaks e₀.vocabulary := halike.left
  have hends : (∃ b r, c.perform b e = some r) ↔
      ¬ e₀.vocabulary.Loops e₀.aliasBudget items :=
    (perform_ends_iff hspeaks hc).trans (Vocabulary.gives_iff_not_loops hanswers henough)
  have herror (b : Nat) (err : Error) (e' : Engine σ)
      (h : c.perform b e = some (.error err, e')) : err.IsCycle := by
    obtain ⟨d, read, hd, hfail⟩ := exists_gives_of_perform hspeaks hc h
    obtain rfl := (hfail err).1 rfl
    exact Vocabulary.isCycle_of_extractAll hd
  refine ⟨hends, ?_, herror, fun name hname hcycle hloops => ?_⟩
  · exact (perform_succeeds_iff hspeaks hc).trans
      (Vocabulary.gives_ok_iff_clear hanswers henough)
  · obtain ⟨b, ⟨answer, e'⟩, hcall⟩ := hends.2 hloops
    cases answer with
    | error err => exact ⟨b, err, e', hcall, herror b err e' hcall⟩
    | ok answer =>
      -- the vocabulary would have read a cyclic shortcut without an error
      obtain ⟨d, parts, hd⟩ := (perform_succeeds_iff hspeaks hc).1 ⟨b, answer, e', hcall⟩
      exact absurd hd (Vocabulary.not_gives_ok_of_cyclic hname hcycle parts)

/-! ## Shortcuts that lead to themselves below a key -/

/-- A configuration with a shortcut that asks for itself where a flag should stand. -/
def flagDraft : Draft where
  extra := [("shortcuts", .array [.array [.string "s",
    .object [("__important", .array [.string "s"]), ("color", .string "red")]]])]

/-- The new engine of this configuration. -/
def flagEngine : Engine Unit where
  config := { extra := flagDraft.extra }
  pipeline := ⟨Pipeline.bundled {}
    { statics := [("s", ⟨"s", "s", [.definition [("__important", .items [.shortcut "s"]),
      ("color", .property (.scalar (.text "red")))]]⟩)] } [] false, ()⟩

/-- The items in the place of a flag are never entered, so the shortcut does not loop.
Once it has been used it can be previewed, too. -/
theorem Run.ends_flag :
    create ⟨flagDraft, [.core]⟩ () = some (.ok (flagEngine, [])) ∧
      ¬ flagEngine.vocabulary.Loops flagEngine.aliasBudget [.shortcut "s"] ∧
      ∃ e, Run flagEngine
          [e.event (.use [.shortcut "s"]) (.ok (.outcome ⟨["a"], []⟩))] e ∧
        ∃ b r, Call.perform b (.preview [.shortcut "s"]) e = some r := by
  have hcreate : create ⟨flagDraft, [.core]⟩ () = some (.ok (flagEngine, [])) := by rfl
  obtain ⟨e, huse⟩ : ∃ e, Call.perform 2 (.use [.shortcut "s"]) flagEngine =
      some (.ok (.outcome ⟨["a"], []⟩), e) := ⟨_, by rfl⟩
  have hloops : ¬ flagEngine.vocabulary.Loops flagEngine.aliasBudget [.shortcut "s"] :=
    (Run.ends_iff_not_loops hcreate (.nil _)
      (rfl : (Call.use [.shortcut "s"]).items? = _)).1.1 ⟨2, _, huse⟩
  have hrun : Run flagEngine
      [e.event (.use [.shortcut "s"]) (.ok (.outcome ⟨["a"], []⟩))] e :=
    .cons huse (.nil e)
  refine ⟨hcreate, hloops, e, hrun, ?_⟩
  exact (Run.ends_iff_not_loops hcreate hrun
    (rfl : (Call.preview [.shortcut "s"]).items? = _)).1.2 hloops

/-- The style of a shortcut that asks for the same shortcut under a selector. -/
def hoverStyle : StyleDefinition := [("&:hover", .items [.shortcut "loop"])]

/-- A configuration with this shortcut. -/
def hoverDraft : Draft where
  extra := [("shortcuts", .array [.array [.string "loop",
    .object [("&:hover", .array [.string "loop"])]]])]

/-- The new engine of this configuration. -/
def hoverEngine : Engine Unit where
  config := { extra := hoverDraft.extra }
  pipeline := ⟨Pipeline.bundled {}
    { statics := [("loop", ⟨"loop", "loop", [.definition hoverStyle]⟩)] } [] false, ()⟩

/-- A shortcut that leads to itself through the items under a key is not reported: no
budget is enough to use or to preview it. Nor is one reported that does so in the
place of a flag: it is used like any other. -/
theorem hover_never_ends :
    create ⟨hoverDraft, [.core]⟩ () = some (.ok (hoverEngine, [])) ∧
      (∀ b, Call.perform b (.use [.shortcut "loop"]) hoverEngine = none) ∧
      (∀ b, Call.perform b (.preview [.shortcut "loop"]) hoverEngine = none) ∧
      create ⟨flagDraft, [.core]⟩ () = some (.ok (flagEngine, [])) ∧
      (Call.perform 2 (.use [.shortcut "s"]) flagEngine).map Prod.fst =
        some (.ok (.outcome ⟨["a"], []⟩)) := by
  have hcreate : create ⟨hoverDraft, [.core]⟩ () = some (.ok (hoverEngine, [])) := by rfl
  have hspeaks := speaks_of_create_core hcreate
  have hopens : hoverEngine.vocabulary.Opens hoverEngine.aliasBudget hoverStyle hoverStyle :=
    ⟨[], [], by rfl, Vocabulary.clear_nil⟩
  have hloops : hoverEngine.vocabulary.Loops hoverEngine.aliasBudget [.shortcut "loop"] :=
    ⟨hoverStyle, hoverStyle, ⟨[], [], by rfl, Vocabulary.clear_nil⟩, .refl, .single hopens⟩
  have hnever {c : Call Unit} (hc : c.items? = some [.shortcut "loop"]) (b : Nat) :
      c.perform b hoverEngine = none := by
    cases hcall : c.perform b hoverEngine with
    | none => rfl
    | some r =>
      -- an answer with any budget would be one that the vocabulary gives
      obtain ⟨d, read, hread⟩ := (perform_ends_iff hspeaks hc).1 ⟨b, r, hcall⟩
      exact absurd hread
        (Vocabulary.not_gives_of_loops (enough_of_create hcreate).1 hloops d read)
  exact ⟨hcreate, hnever rfl, hnever rfl, by rfl, by rfl⟩

end Engine

end AtomicCss
