import AtomicCss.Alias.Expansion
import AtomicCss.Plugin.Important
import AtomicCss.Plugin.Keyframes
import AtomicCss.Plugin.Variables

/-!
# Plugins

A plugin extends the engine at fixed points, its hooks. Five plugins come with
the library; any other one is given by its hooks, which act on a state that is
shared by all such plugins and by the listeners of the engine.

- `Stage`: plugins of an earlier stage are called before those of a later one.
- `Hooks`: a plugin of one's own. Each hook may fail, and may leave what it is
  given unchanged by answering `none`.
- `Plugin`: a bundled plugin with its state, or one of one's own.
- `Plugin.configDraft`, `Plugin.configSettled`, `Plugin.selectors`,
  `Plugin.items`, `Plugin.definitions`, `Plugin.ruleAdded`: the hooks of a plugin.
-/

namespace AtomicCss

/-- When a plugin is called relative to others. -/
inductive Stage where
  | pre
  | normal
  | post
  deriving DecidableEq, Repr

/-- A plugin of one's own, acting on a shared state. -/
structure Hooks (σ : Type) where
  name : String
  stage : Stage := .normal
  /-- Change the draft of the configuration. -/
  configDraft : Draft → σ → Except Error (Option Draft) × σ := fun _ s => (.ok none, s)
  /-- Change the settled configuration. -/
  configSettled : Config → σ → Except Error (Option Config) × σ := fun _ s => (.ok none, s)
  /-- Replace the selectors of a chain. -/
  selectors : List String → σ → Except Error (Option (List String)) × σ :=
    fun _ s => (.ok none, s)
  /-- Replace the items of a list. -/
  items : List StyleItem → σ → Except Error (Option (List StyleItem)) × σ :=
    fun _ s => (.ok none, s)
  /-- Replace the definitions that a definition stands for. -/
  definitions : List StyleDefinition → σ → Except Error (Option (List StyleDefinition)) × σ :=
    fun _ s => (.ok none, s)
  /-- Take note of a new rule. -/
  ruleAdded : σ → σ := id

/-- A plugin with its state. -/
inductive Plugin (σ : Type) where
  /-- Expands selector aliases. -/
  | selectors (aliases : AliasRules (List String))
  /-- Expands shortcuts. -/
  | shortcuts (aliases : AliasRules (List StyleItem))
  /-- Declares custom properties. -/
  | variables (declared : List (String × String))
  /-- Writes the keyframes of the animations in use. -/
  | keyframes
  /-- Marks values as important. -/
  | important (standard : Bool)
  /-- A plugin of one's own. -/
  | custom (hooks : Hooks σ)

/-- What a hook leaves behind: its answer or its error, its plugin, and the
shared state; nothing if its budget is spent. -/
abbrev HookResult (σ α : Type) := Option (Except Error (Option α) × Plugin σ × σ)

/-- A configuration on its way through the plugins, with the warnings so far. -/
abbrev Settling := Config × List Warning

namespace Plugin

variable {σ : Type}

/-- The name of a plugin. -/
def name : Plugin σ → String
  | .selectors _ => "core:selectors"
  | .shortcuts _ => "core:shortcuts"
  | .variables _ => "core:variables"
  | .keyframes => "core:keyframes"
  | .important _ => "core:important"
  | .custom hooks => hooks.name

/-- The stage of a plugin. Selector aliases come before everything else. -/
def stage : Plugin σ → Stage
  | .selectors _ => .pre
  | .custom hooks => hooks.stage
  | _ => .normal

/-- A plugin that leaves alone what it is given. -/
def pass {α : Type} (p : Plugin σ) (s : σ) : HookResult σ α := some (.ok none, p, s)

/-- The result of a hook of one's own. -/
def ofHook {α : Type} (p : Plugin σ) (r : Except Error (Option α) × σ) : HookResult σ α :=
  some (r.1, p, r.2)

/-- The result of a hook that runs a walk on the rules of a plugin. -/
def ofWalk {α ρ : Type} (make : ρ → Plugin σ) (w : Walk ρ α) (rules : ρ) (s : σ) :
    HookResult σ α :=
  match w rules with
  | none => none
  | some (.error e, rules) => some (.error e, make rules, s)
  | some (.ok a, rules) => some (.ok (some a), make rules, s)

/-- A plugin may change the draft of the configuration. -/
def configDraft (p : Plugin σ) (d : Draft) (s : σ) : HookResult σ Draft :=
  match p with
  | .custom hooks => ofHook p (hooks.configDraft d s)
  | p => p.pass s

/-- The static rules of the alias entry of a key. -/
def aliasEntry {α : Type} (key : String) (form : Json → Option α) (c : Config) :
    Except Error (List (String × List α)) := do
  return (← c.entry? key (decodeList (decodePair decodeString (decodeOneOrMany form)))).getD []

/-- Register the static rules of an alias entry. -/
def configAliases {α : Type} (make : AliasRules (List α) → Plugin σ) (key : String)
    (form : Json → Option α) (aliases : AliasRules (List α)) (c : Settling) (s : σ) :
    HookResult σ Settling :=
  match aliasEntry key form c.1 with
  | .error e => some (.error e, make aliases, s)
  | .ok entries =>
    let (aliases, warnings) := aliases.addAliases entries
    some (.ok (some (c.1, c.2 ++ warnings)), make aliases, s)

/-- A plugin reads its entry of the settled configuration, and may change it. -/
def configSettled (p : Plugin σ) (c : Settling) (s : σ) : HookResult σ Settling :=
  match p with
  | .selectors aliases => configAliases .selectors "selectors" Json.string? aliases c s
  | .shortcuts aliases => configAliases .shortcuts "shortcuts" StyleItem.ofJson? aliases c s
  | .variables _ =>
    match Variables.configure c.1 with
    | (declared, .error e) => some (.error e, .variables declared, s)
    | (declared, .ok config) => some (.ok (some (config, c.2)), .variables declared, s)
  | .keyframes =>
    match Keyframes.configure c.1 with
    | .error e => some (.error e, .keyframes, s)
    | .ok config => some (.ok (some (config, c.2)), .keyframes, s)
  | .important standard =>
    match Important.configure c.1 with
    | .error e => some (.error e, .important standard, s)
    | .ok standard => some (.ok none, .important standard, s)
  | .custom hooks =>
    match hooks.configSettled c.1 s with
    | (.error e, s) => some (.error e, p, s)
    | (.ok none, s) => some (.ok none, p, s)
    | (.ok (some config), s) => some (.ok (some (config, c.2)), p, s)

/-- A plugin may replace the selectors of a chain. -/
def transformSelectors (budget : Nat) (p : Plugin σ) (chain : List String) (s : σ) :
    HookResult σ (List String) :=
  match p with
  | .selectors aliases =>
    ofWalk .selectors (Walk.collect (AliasRules.expandSelector budget) chain) aliases s
  | .custom hooks => ofHook p (hooks.selectors chain s)
  | p => p.pass s

/-- The items that an item stands for. -/
def expandItem (budget : Nat) : StyleItem → Walk (AliasRules (List StyleItem)) (List StyleItem)
  | .shortcut name => do
    match ← AliasRules.expandShortcut budget name with
    | some items => return items
    | none => return [.shortcut name]
  | .definition d => return [.definition d]

/-- A plugin may replace the items of a list. -/
def transformItems (budget : Nat) (p : Plugin σ) (items : List StyleItem) (s : σ) :
    HookResult σ (List StyleItem) :=
  match p with
  | .shortcuts aliases =>
    ofWalk .shortcuts (Walk.collect (expandItem budget) items) aliases s
  | .custom hooks => ofHook p (hooks.items items s)
  | p => p.pass s

/-- A plugin may replace the definitions that a definition stands for. -/
def transformDefinitions (p : Plugin σ) (ds : List StyleDefinition) (s : σ) :
    HookResult σ (List StyleDefinition) :=
  match p with
  | .important standard => some (.ok (some (ds.map (Important.apply standard))), p, s)
  | .custom hooks => ofHook p (hooks.definitions ds s)
  | p => p.pass s

/-- A plugin is told that there is a new rule. -/
def ruleAdded (p : Plugin σ) (s : σ) : σ :=
  match p with
  | .custom hooks => hooks.ruleAdded s
  | _ => s

end Plugin

end AtomicCss
