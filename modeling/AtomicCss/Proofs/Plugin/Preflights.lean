import AtomicCss.Proofs.Engine.Run
import AtomicCss.Proofs.Plugin.Dispatch

/-!
# Preflights that plugins add

Most plugins only add to the configuration: they leave its entries as they are and put their
preflights behind those that are there. What such a plugin adds while an engine is created is
in the configuration of the engine, whatever is added in front of it and behind it.

- `Config.GrownTo`: a configuration to which preflights were added.
- `Plugin.configSettled_variables_eq`, `Plugin.configSettled_keyframes_eq`: what the bundled plugins
  with preflights add.
- `Plugin.Additive`: a plugin that only adds.
- `Plugin.additive_of_bundled`: the bundled plugins are of this kind.
- `Pipeline.grownTo_through`: so is a whole pipeline of such plugins.
- `Engine.exists_added_of_create`: what one of them has added stays there.
-/

namespace AtomicCss

variable {σ : Type}

/-- The other configuration has the same entries, and its preflights begin with those of this
one. -/
structure Config.GrownTo (c c' : Config) : Prop where
  extra : c'.extra = c.extra
  preflights : c.preflights <+: c'.preflights

theorem Config.GrownTo.refl (c : Config) : c.GrownTo c := ⟨rfl, List.prefix_rfl⟩

theorem Config.GrownTo.trans {c₁ c₂ c₃ : Config} (h : c₁.GrownTo c₂) (h' : c₂.GrownTo c₃) :
    c₁.GrownTo c₃ :=
  ⟨h'.extra.trans h.extra, h.preflights.trans h'.preflights⟩

/-- The configuration with more preflights. -/
def Config.addPreflights (c : Config) (ps : List Preflight) : Config :=
  { c with preflights := c.preflights ++ ps }

theorem Config.addPreflights_nil (c : Config) : c.addPreflights [] = c := by
  rw [addPreflights, List.append_nil]

theorem Config.grownTo_addPreflights (c : Config) (ps : List Preflight) :
    c.GrownTo (c.addPreflights ps) :=
  ⟨rfl, List.prefix_append _ _⟩

/-! ## What the bundled plugins add -/

namespace Variables

/-- The preflights that declare variables: one block, if there are any. -/
def installed (declared : List (String × String)) : List Preflight :=
  if declared = [] then [] else [.css (rootBlock declared)]

/-- The variables of a configuration, and the error that ended the walk. -/
def collectEntry (c : Config) : List (String × String) × Except Error Unit :=
  match Table.get? c.extra "variables" with
  | some value => collect c.namePrefix "" value
  | none => ([], .ok ())

theorem configure_eq (c : Config) :
    configure c = ((collectEntry c).1, (collectEntry c).2.map fun _ =>
      c.addPreflights (installed (collectEntry c).1)) := by
  unfold configure collectEntry
  cases Table.get? c.extra "variables" with
  | none => exact congrArg (fun c => ([], Except.ok c)) c.addPreflights_nil.symm
  | some value =>
    dsimp only
    rcases collect c.namePrefix "" value with ⟨_ | ⟨d, declared⟩, err | _⟩
    · rfl
    · exact congrArg (fun c => ([], Except.ok c)) c.addPreflights_nil.symm
    · rfl
    · rfl

end Variables

namespace Keyframes

/-- The preflights that write keyframes: one that is computed, if there are any. -/
def installed (keyframes : Table String Frames) : List Preflight :=
  if keyframes = [] then [] else [.computed (preflight keyframes)]

/-- The keyframes of a configuration. -/
def configured (c : Config) : Except Error (Table String Frames) := do
  return (← c.entry? "keyframes" decode).getD []

theorem configure_eq (c : Config) :
    configure c = (configured c).map fun keyframes => c.addPreflights (installed keyframes) := by
  rw [configure, configured]
  rcases c.entry? "keyframes" decode with err | _ | _ | ⟨k, keyframes⟩
  · rfl
  · exact congrArg Except.ok c.addPreflights_nil.symm
  · exact congrArg Except.ok c.addPreflights_nil.symm
  · rfl

end Keyframes

namespace Plugin

variable {p p' : Plugin σ} {s s' : σ}

/-- The plugin leaves the entries of the configuration as they are, and takes no preflight of the
settled configuration away. -/
structure Additive (p : Plugin σ) : Prop where
  draft : ∀ {d s answer p' s'}, p.configDraft d s = some (.ok answer, p', s') →
    (answer.getD d).extra = d.extra
  settled : ∀ {c s answer p' s'}, p.configSettled c s = some (.ok answer, p', s') →
    c.1.GrownTo (answer.getD c).1

/-- A plugin stays what it is while it changes the draft. -/
theorem plugin_of_configDraft {d : Draft} {r : Except Error (Option Draft)}
    (h : p.configDraft d s = some (r, p', s')) : p' = p := by
  cases p <;> cases h <;> rfl

theorem grownTo_of_configAliases {α : Type} {make : AliasRules (List α) → Plugin σ}
    {key : String} {form : Json → Option α} {rules : AliasRules (List α)} {c : Settling}
    {answer : Option Settling}
    (h : configAliases make key form rules c s = some (.ok answer, p', s')) :
    c.1.GrownTo (answer.getD c).1 := by
  unfold configAliases at h
  split at h
  · cases h
  · obtain ⟨rfl, -, -⟩ : _ = answer ∧ _ := by simpa using h
    exact .refl _

/-- The plugin of variables takes over what the walk has declared, also where the walk ends with an
error. -/
theorem configSettled_variables_eq {declared : List (String × String)} {c : Settling} :
    (Plugin.variables declared).configSettled c s =
      some ((Variables.collectEntry c.1).2.map fun _ =>
          some (c.1.addPreflights (Variables.installed (Variables.collectEntry c.1).1), c.2),
        .variables (Variables.collectEntry c.1).1, s) := by
  rw [configSettled, Variables.configure_eq]
  cases (Variables.collectEntry c.1).2 <;> rfl

theorem configSettled_keyframes_eq {c : Settling} :
    Plugin.keyframes.configSettled c s =
      some ((Keyframes.configured c.1).map fun keyframes =>
          some (c.1.addPreflights (Keyframes.installed keyframes), c.2), .keyframes, s) := by
  rw [configSettled, Keyframes.configure_eq]
  cases Keyframes.configured c.1 <;> rfl

/-- What is added if there is no error is added. -/
theorem grownTo_of_map {α : Type} {c : Settling} {r : Except Error α} {added : α → List Preflight}
    {answer : Option Settling}
    (h : (r.map fun a => some (c.1.addPreflights (added a), c.2)) = .ok answer) :
    c.1.GrownTo (answer.getD c).1 := by
  cases r with
  | error err => cases h
  | ok a =>
    obtain rfl := Except.ok.inj h
    exact c.1.grownTo_addPreflights _

/-- The bundled plugins only add. -/
theorem additive_of_bundled (h : ∀ hooks, p ≠ .custom hooks) : p.Additive where
  draft := by
    intro d s answer p' s' hdraft
    cases p with
    | custom hooks => exact absurd rfl (h hooks)
    | _ => cases hdraft; rfl
  settled := by
    intro c s answer p' s' hsettled
    rcases p with aliases | aliases | declared | _ | standard | hooks
    · exact grownTo_of_configAliases hsettled
    · exact grownTo_of_configAliases hsettled
    · rw [configSettled_variables_eq] at hsettled
      exact grownTo_of_map (Prod.mk.inj (Option.some.inj hsettled)).1
    · rw [configSettled_keyframes_eq] at hsettled
      exact grownTo_of_map (Prod.mk.inj (Option.some.inj hsettled)).1
    · simp only [configSettled] at hsettled
      split at hsettled
      · cases hsettled
      · obtain ⟨rfl, -, -⟩ : none = answer ∧ _ := by simpa using hsettled
        exact .refl _
    · exact absurd rfl (h hooks)

end Plugin

namespace Pipeline

variable {ps ps' : List (Plugin σ)} {s s' : σ}

/-- Plugins that leave the entries alone are there, with the same entries, when the draft is
settled. -/
theorem extra_of_configDraft {d d' : Draft} (hps : ∀ p ∈ ps, p.Additive)
    (h : through Plugin.configDraft ps d s = some (.ok d', ps', s')) :
    ps' = ps ∧ d'.extra = d.extra := by
  induction ps generalizing d s ps' with
  | nil =>
    obtain ⟨rfl, rfl, -⟩ : d = d' ∧ [] = ps' ∧ s = s' := by simpa [through] using h
    exact ⟨rfl, rfl⟩
  | cons p ps ih =>
    obtain ⟨answer, p', s₁, ps₁, hp, hrest, rfl⟩ := through_cons_ok h
    obtain ⟨hp₀, hps⟩ := List.forall_mem_cons.1 hps
    obtain ⟨rfl, hextra⟩ := ih hps hrest
    exact ⟨by rw [Plugin.plugin_of_configDraft hp], hextra.trans (hp₀.draft hp)⟩

/-- Plugins that only add come to a configuration that has grown. -/
theorem grownTo_through {c c' : Settling} (hps : ∀ p ∈ ps, p.Additive)
    (h : through Plugin.configSettled ps c s = some (.ok c', ps', s')) : c.1.GrownTo c'.1 := by
  induction ps generalizing c s ps' with
  | nil =>
    obtain ⟨rfl, -, -⟩ : c = c' ∧ _ := by simpa [through] using h
    exact .refl _
  | cons p ps ih =>
    obtain ⟨answer, p', s₁, ps₁, hp, hrest, rfl⟩ := through_cons_ok h
    obtain ⟨hp₀, hps⟩ := List.forall_mem_cons.1 hps
    exact (hp₀.settled hp).trans (ih hps hrest)

/-- What one of the plugins adds is there in the end. -/
theorem exists_added_of_through {c c' : Settling} {p : Plugin σ} {added : List Preflight}
    (hps : ∀ p ∈ ps, p.Additive) (hp : p ∈ ps)
    (hadds : ∀ {c₁ : Settling} {s₁ answer p' s₂}, c₁.1.extra = c.1.extra →
      p.configSettled c₁ s₁ = some (.ok answer, p', s₂) →
        (answer.getD c₁).1.preflights = c₁.1.preflights ++ added)
    (h : through Plugin.configSettled ps c s = some (.ok c', ps', s')) :
    ∃ front back, c'.1.preflights = front ++ added ++ back := by
  induction ps generalizing c s ps' with
  | nil => cases hp
  | cons q ps ih =>
    obtain ⟨answer, q', s₁, ps₁, hq, hrest, rfl⟩ := through_cons_ok h
    obtain ⟨hq₀, hps'⟩ := List.forall_mem_cons.1 hps
    rcases List.mem_cons.1 hp with rfl | hp
    · obtain ⟨back, hback⟩ := (grownTo_through hps' hrest).preflights
      exact ⟨c.1.preflights, back, by rw [← hback, hadds rfl hq]⟩
    · have hextra := (hq₀.settled hq).extra
      exact ih hps' hp (fun hc => hadds (hc.trans hextra)) hrest

end Pipeline

namespace Engine

/-- In an engine whose plugins only add, the preflights that one of them adds to a configuration
with the entries of the draft stand together in the configuration of the engine. -/
theorem exists_added_of_create {config : EngineConfig σ} {shared : σ} {e : Engine σ}
    {warnings : List Warning} {p : Plugin σ} {added : List Preflight}
    (hcreate : create config shared = some (.ok (e, warnings)))
    (hplugins : ∀ p ∈ Pipeline.arrange config.plugins, p.Additive)
    (hp : p ∈ Pipeline.arrange config.plugins)
    (hadds : ∀ {c : Settling} {s answer p' s'}, c.1.extra = config.draft.extra →
      p.configSettled c s = some (.ok answer, p', s') →
        (answer.getD c).1.preflights = c.1.preflights ++ added) :
    ∃ front back, e.config.preflights = front ++ added ++ back := by
  obtain ⟨settled, pipeline, hsettle, rfl⟩ := create_eq_some hcreate
  rw [settle, Walk.bind_eq_some] at hsettle
  rcases hsettle with ⟨_, -, herr⟩ | ⟨draft, m, hdraft, hsettled⟩
  · cases herr
  · have hdraft := Pipeline.through_eq_some.2 (Pipeline.run_eq_some.1 hdraft)
    have hsettled := Pipeline.through_eq_some.2 (Pipeline.run_eq_some.1 hsettled)
    obtain ⟨hm, hextra⟩ := Pipeline.extra_of_configDraft hplugins hdraft
    rw [hm] at hsettled
    exact Pipeline.exists_added_of_through hplugins hp (fun hc => hadds (hc.trans hextra)) hsettled

end Engine

end AtomicCss
