import AtomicCss.Plugin.Basic

/-!
# The pipeline of plugins

Plugins are registered one by one or in groups, and called stage by stage, in
registration order within a stage. What passes through a hook goes from plugin to
plugin: an answer replaces it, and the first error ends the hook.

- `PluginOption`: a plugin or a group.
- `Pipeline.arrange`: the plugins of a list of options in the order of calls.
- `Pipeline.through`: one hook of all plugins.
- `Pipeline.transformSelectors`, `Pipeline.transformItems`,
  `Pipeline.transformDefinitions`: the hooks of a pipeline as walks on it.
-/

namespace AtomicCss

/-- A plugin, or a group of options that stands for its parts in order. -/
inductive PluginOption (σ : Type) where
  | plugin (p : Plugin σ)
  | group (options : List (PluginOption σ))

namespace PluginOption

variable {σ : Type}

mutual

/-- The plugins of an option. -/
def plugins : PluginOption σ → List (Plugin σ)
  | .plugin p => [p]
  | .group options => pluginsOf options
termination_by structural o => o

/-- The plugins of a list of options. -/
def pluginsOf : List (PluginOption σ) → List (Plugin σ)
  | [] => []
  | o :: options => o.plugins ++ pluginsOf options
termination_by structural os => os

end

/-- The plugins that come with the library. -/
def core : PluginOption σ :=
  .group [.plugin (.selectors {}), .plugin (.shortcuts {}), .plugin (.variables []),
    .plugin .keyframes, .plugin (.important false)]

end PluginOption

/-- Plugins in the order of calls, and the state that they share. -/
structure Pipeline (σ : Type) where
  plugins : List (Plugin σ)
  shared : σ

namespace Pipeline

variable {σ : Type}

/-- The plugins of a stage. -/
def ofStage (stage : Stage) (ps : List (Plugin σ)) : List (Plugin σ) :=
  ps.filter fun p => p.stage = stage

/-- The plugins of a list of options in the order of calls. -/
def arrange (options : List (PluginOption σ)) : List (Plugin σ) :=
  let ps := PluginOption.pluginsOf options
  ofStage .pre ps ++ ofStage .normal ps ++ ofStage .post ps

/-- Pass a value through one hook of the plugins of a list. -/
def through {α : Type} (hook : Plugin σ → α → σ → HookResult σ α) :
    List (Plugin σ) → α → σ → Option (Except Error α × List (Plugin σ) × σ)
  | [], a, s => some (.ok a, [], s)
  | p :: ps, a, s =>
    match hook p a s with
    | none => none
    | some (.error e, p, s) => some (.error e, p :: ps, s)
    | some (.ok answer, p, s) =>
      match through hook ps (answer.getD a) s with
      | none => none
      | some (result, ps, s) => some (result, p :: ps, s)

/-- One hook of a pipeline as a walk. -/
def run {α : Type} (hook : Plugin σ → α → σ → HookResult σ α) (a : α) :
    Walk (Pipeline σ) α := fun pipeline =>
  match through hook pipeline.plugins a pipeline.shared with
  | none => none
  | some (result, plugins, shared) => some (result, ⟨plugins, shared⟩)

/-- Pass the draft of a configuration through the plugins. -/
def configDraft (d : Draft) : Walk (Pipeline σ) Draft := run Plugin.configDraft d

/-- Pass a settled configuration through the plugins. -/
def configSettled (c : Settling) : Walk (Pipeline σ) Settling := run Plugin.configSettled c

/-- The selectors that a chain stands for. -/
def transformSelectors (budget : Nat) (chain : List String) :
    Walk (Pipeline σ) (List String) :=
  run (Plugin.transformSelectors budget) chain

/-- The items that a list of items stands for. -/
def transformItems (budget : Nat) (items : List StyleItem) :
    Walk (Pipeline σ) (List StyleItem) :=
  run (Plugin.transformItems budget) items

/-- The definitions that a list of definitions stands for. -/
def transformDefinitions (ds : List StyleDefinition) :
    Walk (Pipeline σ) (List StyleDefinition) :=
  run Plugin.transformDefinitions ds

/-- Tell the plugins that there is a new rule. -/
def ruleAdded (p : Pipeline σ) : Pipeline σ :=
  { p with shared := p.plugins.foldl (fun s plugin => plugin.ruleAdded s) p.shared }

/-- The names of the plugins in the order of calls. -/
def names (p : Pipeline σ) : List String := p.plugins.map Plugin.name

end Pipeline

end AtomicCss
