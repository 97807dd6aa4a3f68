import AtomicCss.Proofs.Engine.Run
import AtomicCss.Proofs.Extraction.Speaking
import AtomicCss.Proofs.Plugin.Dispatch

/-!
# Engines with the bundled plugins

A new engine with the bundled plugins, to which pattern rules may have been given,
speaks the vocabulary of its rules, and goes on to speak it whatever it is asked.

- `PluginOption.coreWith`: the bundled plugins with pattern rules.
- `Engine.vocabulary`: what the rules of an engine come to.
- `Engine.Speaks`: an engine that speaks a vocabulary, its kept shortcuts included.
- `Engine.Alike`: two such engines that differ only in what they remember.
- `Engine.create_coreWith`, `Engine.speaks_of_create`: new engines.
- `Engine.tracks_extractAll`: what items say to such an engine.
-/

namespace AtomicCss

open Reading AliasRules

variable {σ : Type}

/-- The bundled plugins, with pattern rules for selectors and shortcuts. -/
def PluginOption.coreWith (selectorPatterns : Table String (PatternRule (List String)))
    (shortcutPatterns : Table String (PatternRule (List StyleItem))) : PluginOption σ :=
  .group [.plugin (.selectors { patterns := selectorPatterns }),
    .plugin (.shortcuts { patterns := shortcutPatterns }), .plugin (.variables []),
    .plugin .keyframes, .plugin (.important false)]

theorem PluginOption.coreWith_nil : (coreWith [] [] : PluginOption σ) = core := rfl

/-! ## Configuring the bundled plugins -/

namespace AliasRules

variable {α : Type}

/-- Rules that remember nothing have nothing to forget. -/
theorem forget_memo {r : AliasRules α} (h : r.memo = {}) (p : String → Bool) :
    (r.forget p).memo = {} := by
  rw [forget, h]
  rfl

/-- Registering a static rule in fresh rules leaves them fresh, and their patterns alone. -/
theorem addStatic_memo_patterns {r : AliasRules α} (h : r.memo = {}) (rule : StaticRule α) :
    (r.addStatic rule).1.memo = {} ∧ (r.addStatic rule).1.patterns = r.patterns := by
  unfold addStatic
  cases Table.get? r.statics rule.key with
  | none => exact ⟨h, rfl⟩
  | some old => exact ⟨forget_memo h fun input => input = old.input, rfl⟩

/-- Registering aliases in fresh rules leaves them fresh, and their patterns alone. -/
theorem addAliases_memo_patterns {r : AliasRules α} (h : r.memo = {})
    (entries : List (String × α)) :
    (r.addAliases entries).1.memo = {} ∧ (r.addAliases entries).1.patterns = r.patterns := by
  induction entries generalizing r with
  | nil => exact ⟨h, rfl⟩
  | cons entry entries ih =>
    obtain ⟨hmemo, hpatterns⟩ := addStatic_memo_patterns h ⟨entry.1, entry.1, entry.2⟩
    obtain ⟨hmemo', hpatterns'⟩ := ih hmemo
    exact ⟨hmemo', hpatterns'.trans hpatterns⟩

end AliasRules

namespace Plugin

/-- A plugin with alias rules reads its aliases and does nothing else. -/
theorem configAliases_ok {α : Type} {make : AliasRules (List α) → Plugin σ} {key : String}
    {form : Json → Option α} {rules : AliasRules (List α)} {c : Settling} {s s' : σ}
    {answer : Option Settling} {p : Plugin σ} (hfresh : rules.memo = {})
    (h : configAliases make key form rules c s = some (.ok answer, p, s')) :
    s' = s ∧ ∃ rules', p = make rules' ∧ rules'.memo = {} ∧ rules'.patterns = rules.patterns := by
  unfold configAliases at h
  split at h
  · cases h
  · next entries _ =>
    obtain ⟨-, rfl, rfl⟩ : _ ∧ make (rules.addAliases entries).1 = p ∧ s = s' := by
      simpa using h
    exact ⟨rfl, _, rfl, addAliases_memo_patterns hfresh entries⟩

/-- The plugin for variables settles what it declares, and touches nothing that is shared. -/
theorem configSettled_variables {declared : List (String × String)} {c : Settling} {s s' : σ}
    {answer : Option Settling} {p : Plugin σ}
    (h : (Plugin.variables declared).configSettled c s = some (.ok answer, p, s')) :
    s' = s ∧ ∃ declared', p = .variables declared' := by
  simp only [configSettled] at h
  split at h
  · cases h
  · next declared' _ _ =>
    obtain ⟨-, rfl, rfl⟩ : _ ∧ .variables declared' = p ∧ s = s' := by simpa using h
    exact ⟨rfl, _, rfl⟩

/-- The plugin for keyframes keeps nothing of its own, and touches nothing that is shared. -/
theorem configSettled_keyframes {c : Settling} {s s' : σ} {answer : Option Settling}
    {p : Plugin σ} (h : Plugin.keyframes.configSettled c s = some (.ok answer, p, s')) :
    s' = s ∧ p = .keyframes := by
  simp only [configSettled] at h
  split at h
  · cases h
  · obtain ⟨-, rfl, rfl⟩ : _ ∧ .keyframes = p ∧ s = s' := by simpa using h
    exact ⟨rfl, rfl⟩

/-- The plugin for importance settles its standard, and touches nothing that is shared. -/
theorem configSettled_important {standard : Bool} {c : Settling} {s s' : σ}
    {answer : Option Settling} {p : Plugin σ}
    (h : (Plugin.important standard).configSettled c s = some (.ok answer, p, s')) :
    s' = s ∧ ∃ standard', p = .important standard' := by
  simp only [configSettled] at h
  split at h
  · cases h
  · next standard' _ =>
    obtain ⟨-, rfl, rfl⟩ : _ ∧ .important standard' = p ∧ s = s' := by simpa using h
    exact ⟨rfl, _, rfl⟩

end Plugin

namespace Pipeline

/-- The bundled plugins are configured one after the other. -/
theorem configSettled_bundled {aliases : AliasRules (List String)}
    {shortcuts : AliasRules (List StyleItem)} {c c' : Settling} {shared : σ}
    {declared : List (String × String)} {important : Bool} {p : Pipeline σ}
    (ha : aliases.memo = {}) (hs : shortcuts.memo = {})
    (h : configSettled c ⟨bundled aliases shortcuts declared important, shared⟩ =
      some (.ok c', p)) :
    ∃ aliases' shortcuts' declared' important',
      p = ⟨bundled aliases' shortcuts' declared' important', shared⟩ ∧
      aliases'.memo = {} ∧ aliases'.patterns = aliases.patterns ∧
      shortcuts'.memo = {} ∧ shortcuts'.patterns = shortcuts.patterns := by
  unfold configSettled run at h
  split at h
  · cases h
  next result plugins shared' hthrough =>
  obtain ⟨rfl, rfl⟩ := Prod.mk.inj (Option.some.inj h)
  -- the hooks ran in order, and each of them succeeded
  obtain ⟨_, p₁, s₁, ps₁, h₁, hrest₁, rfl⟩ := through_cons_ok hthrough
  obtain ⟨_, p₂, s₂, ps₂, h₂, hrest₂, rfl⟩ := through_cons_ok hrest₁
  obtain ⟨_, p₃, s₃, ps₃, h₃, hrest₃, rfl⟩ := through_cons_ok hrest₂
  obtain ⟨_, p₄, s₄, ps₄, h₄, hrest₄, rfl⟩ := through_cons_ok hrest₃
  obtain ⟨_, p₅, s₅, ps₅, h₅, hrest₅, rfl⟩ := through_cons_ok hrest₄
  obtain ⟨-, rfl, rfl⟩ : _ ∧ [] = ps₅ ∧ s₅ = shared' := by simpa [through] using hrest₅
  obtain ⟨rfl, aliases', rfl, hmemo, hpatterns⟩ := Plugin.configAliases_ok ha h₁
  obtain ⟨rfl, shortcuts', rfl, hmemo', hpatterns'⟩ := Plugin.configAliases_ok hs h₂
  obtain ⟨rfl, declared', rfl⟩ := Plugin.configSettled_variables h₃
  obtain ⟨rfl, rfl⟩ := Plugin.configSettled_keyframes h₄
  obtain ⟨rfl, important', rfl⟩ := Plugin.configSettled_important h₅
  exact ⟨aliases', shortcuts', declared', important', rfl, hmemo, hpatterns, hmemo', hpatterns'⟩

end Pipeline

namespace Engine

/-- A new engine with the bundled plugins has fresh rules with the given patterns,
and has seen nothing. -/
theorem create_coreWith {draft : Draft} {shared : σ}
    {selectorPatterns : Table String (PatternRule (List String))}
    {shortcutPatterns : Table String (PatternRule (List StyleItem))} {e : Engine σ}
    {warnings : List Warning}
    (h : create ⟨draft, [.coreWith selectorPatterns shortcutPatterns]⟩ shared =
      some (.ok (e, warnings))) :
    ∃ config aliases shortcuts declared important,
      e = { config := config
            pipeline := ⟨Pipeline.bundled aliases shortcuts declared important, shared⟩ } ∧
      aliases.memo = {} ∧ aliases.patterns = selectorPatterns ∧
      shortcuts.memo = {} ∧ shortcuts.patterns = shortcutPatterns := by
  obtain ⟨settled, pipeline, hsettle, rfl⟩ := create_eq_some h
  -- no bundled plugin changes the draft
  have hconfigured : Pipeline.configSettled draft.settle ⟨Pipeline.bundled
      { patterns := selectorPatterns } { patterns := shortcutPatterns } [] false, shared⟩ =
        some (.ok (settled, warnings), pipeline) := hsettle
  obtain ⟨aliases, shortcuts, declared, important, rfl, hrules⟩ :=
    Pipeline.configSettled_bundled (c := draft.settle) rfl rfl hconfigured
  exact ⟨settled, aliases, shortcuts, declared, important, rfl, hrules⟩

/-! ## Engines that speak a vocabulary -/

/-- What the rules, the flag and the default selector of an engine come to. -/
def vocabulary (e : Engine σ) : Vocabulary where
  selector? selector := e.pipeline.plugins.findSome? fun
    | .selectors aliases => aliases.lookup? selector
    | _ => none
  shortcut? name := e.pipeline.plugins.findSome? fun
    | .shortcuts shortcuts => shortcuts.lookup? name
    | _ => none
  important := e.pipeline.plugins.any fun
    | .important standard => standard
    | _ => false
  host := e.config.defaultSelector

/-- The vocabulary of an engine with the bundled plugins is read off the rules of the first two,
the standard of the last one and the default selector. -/
theorem vocabulary_bundled {config : Config} {aliases : AliasRules (List String)}
    {shortcuts : AliasRules (List StyleItem)} {declared : List (String × String)}
    {important : Bool} {shared : σ} :
    vocabulary { config := config
                 pipeline := ⟨Pipeline.bundled aliases shortcuts declared important, shared⟩ } =
      ⟨aliases.lookup?, shortcuts.lookup?, important, config.defaultSelector⟩ := by
  unfold vocabulary Pipeline.bundled
  congr 1
  · funext selector
    cases h : aliases.lookup? selector <;> simp [h]
  · funext name
    cases h : shortcuts.lookup? name <;> simp [h]
  · simp

/-- An engine with the bundled plugins whose rules and default selector are those
of the vocabulary, and whose kept shortcuts say what they say in it. -/
structure Speaks (v : Vocabulary) (e : Engine σ) : Prop where
  host : e.config.defaultSelector = v.host
  pipeline : e.pipeline.Speaks v e.pipeline.shared
  kept : ∀ {name parts}, Table.get? e.shortcuts name = some parts →
    ∃ c, Gives (v.items c [] [.shortcut name]) (.ok parts)

/-- Two engines that speak a vocabulary and agree in everything but what they
remember. -/
structure Alike (v : Vocabulary) (e e' : Engine σ) : Prop where
  left : e.Speaks v
  right : e'.Speaks v
  fixed : e'.fixed = e.fixed
  shared : e'.pipeline.shared = e.pipeline.shared

namespace Alike

variable {v : Vocabulary} {e₁ e₂ e₃ : Engine σ}

theorem refl (h : e₁.Speaks v) : Alike v e₁ e₁ := ⟨h, h, rfl, rfl⟩

theorem symm (h : Alike v e₁ e₂) : Alike v e₂ e₁ :=
  ⟨h.right, h.left, h.fixed.symm, h.shared.symm⟩

theorem trans (h : Alike v e₁ e₂) (h' : Alike v e₂ e₃) : Alike v e₁ e₃ :=
  ⟨h.left, h'.right, h'.fixed.trans h.fixed, h'.shared.trans h.shared⟩

theorem config (h : Alike v e₁ e₂) : e₂.config = e₁.config := congrArg Prod.fst h.fixed

theorem store (h : Alike v e₁ e₂) : e₂.store = e₁.store :=
  congrArg (fun x => x.2.1) h.fixed

theorem listeners (h : Alike v e₁ e₂) : e₂.listeners = e₁.listeners :=
  congrArg (fun x => x.2.2) h.fixed

end Alike

/-- A new engine with the bundled plugins speaks its vocabulary. -/
theorem speaks_of_create {draft : Draft} {shared : σ}
    {selectorPatterns : Table String (PatternRule (List String))}
    {shortcutPatterns : Table String (PatternRule (List StyleItem))} {e : Engine σ}
    {warnings : List Warning}
    (h : create ⟨draft, [.coreWith selectorPatterns shortcutPatterns]⟩ shared =
      some (.ok (e, warnings))) : e.Speaks e.vocabulary := by
  obtain ⟨config, aliases, shortcuts, declared, important, rfl, ha, -, hs, -⟩ :=
    create_coreWith h
  rw [vocabulary_bundled]
  refine ⟨rfl, ?_, ?_⟩
  · exact ⟨⟨aliases, shortcuts, declared, rfl, sound_of_fresh ha, sound_of_fresh hs⟩, rfl⟩
  · exact fun h => nomatch h

/-- So does one that was given no pattern rules. -/
theorem speaks_of_create_core {draft : Draft} {shared : σ} {e : Engine σ}
    {warnings : List Warning}
    (h : create ⟨draft, [.core]⟩ shared = some (.ok (e, warnings))) :
    e.Speaks e.vocabulary := by
  rw [← PluginOption.coreWith_nil] at h
  exact speaks_of_create h

/-! ## Reading items -/

section

variable {v : Vocabulary} {e₀ : Engine σ} {b : Nat}

/-- A walk on the pipeline gives in the engine what it gives there. The other parts of the engine
stay as they are. -/
theorem tracks_onPipeline {α : Type} {w : Walk (Pipeline σ) α} {o : Nat → Reading α}
    (h : Walk.Tracks (Pipeline.Speaks v e₀.pipeline.shared) b w o) :
    Walk.Tracks (Alike v e₀) b (onPipeline w) o := by
  refine Walk.tracks_part h fun e he => ?_
  refine ⟨e.pipeline, fun p => { e with pipeline := p }, ?_, fun p hp => ?_, Walk.within_run w e⟩
  · exact he.shared ▸ he.right.pipeline
  · exact ⟨he.left, ⟨he.right.host, hp.shared ▸ hp, he.right.kept⟩, he.fixed, hp.shared⟩

/-- An engine may keep what a shortcut says. -/
theorem Alike.keep {e : Engine σ} (h : Alike v e₀ e) {name : String} {parts : List Extracted}
    {c : Nat} (hparts : Gives (v.items c [] [.shortcut name]) (.ok parts)) :
    Alike v e₀ { e with shortcuts := Table.insert e.shortcuts name parts } := by
  have hkept {name' parts'} (hget : Table.get? (Table.insert e.shortcuts name parts) name' =
      some parts') : ∃ c, Gives (v.items c [] [.shortcut name']) (.ok parts') :=
    Table.forall_get?_insert (p := fun name' parts' =>
      ∃ c, Gives (v.items c [] [.shortcut name']) (.ok parts')) ⟨c, hparts⟩ h.right.kept hget
  exact ⟨h.left, ⟨h.right.host, h.right.pipeline, hkept⟩, h.fixed, h.shared⟩

/-- An item says to the engine what it says in the vocabulary, read now or kept from before. -/
theorem tracks_extractItem (item : StyleItem) :
    Walk.Tracks (Alike v e₀) b (extractItem b item) fun c => v.extractItem c item := by
  cases item with
  | definition d =>
    refine Walk.tracks_get (v.rising_definition [] d) fun e he => ?_
    rw [he.right.host]
    exact tracks_onPipeline (Extraction.tracks_definition [] d)
  | shortcut name =>
    refine Walk.tracks_get (v.rising_items [] [.shortcut name]) fun e he => ?_
    cases hget : Table.get? e.shortcuts name with
    | some parts =>
      -- what was kept is what the shortcut says
      obtain ⟨c, hparts⟩ := he.right.kept hget
      exact Walk.tracks_pure_of_gives (v.rising_items [] [.shortcut name]) hparts
    | none =>
      rw [he.right.host]
      exact Walk.tracks_note (tracks_onPipeline (Extraction.tracks_items [] [.shortcut name]))
        fun he' hparts => he'.keep hparts

/-- What items say to an engine does not depend on what the engine remembers. -/
theorem tracks_extractAll (items : List StyleItem) :
    Walk.Tracks (Alike v e₀) b (extractAll b items) fun c => v.extractAll c items :=
  Walk.tracks_collect tracks_extractItem items

end

end Engine

end AtomicCss
