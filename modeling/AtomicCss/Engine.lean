import AtomicCss.Extraction
import AtomicCss.Merge
import AtomicCss.Stylesheet

/-!
# The engine

An engine turns style items into rules. It keeps a store of all rules, and what
each shortcut meant when it was first used; listeners are told of every new rule
before the plugins are.

- `EngineConfig`, `Engine.create`: configure an engine.
- `Engine.extractAll`: what a list of items says.
- `Engine.useStyles`: enter the declarations of items into the store.
- `Engine.previewStyles`: the stylesheet of items alone; the store stays.
- `Engine.renderStyles`: the preflights and the stylesheet of all rules.
-/

namespace AtomicCss

/-- The configuration of an engine: a draft and its plugins. -/
structure EngineConfig (σ : Type) where
  draft : Draft := {}
  plugins : List (PluginOption σ) := []

/-- An engine: its configuration, its plugins, and what it has seen. -/
structure Engine (σ : Type) where
  config : Config
  pipeline : Pipeline σ
  store : Store := {}
  /-- What a shortcut said when it was first used as an item of its own. -/
  shortcuts : Table String (List Extracted) := []
  /-- Told of each new rule, and acting on the shared state. -/
  listeners : List (AtomicRule → σ → σ) := []

/-- The answer to a use of items: names of rules and unknown shortcuts in order,
and the unknown shortcuts alone. -/
structure UseOutcome where
  names : List String := []
  unknown : List String := []
  deriving DecidableEq, Repr

namespace Engine

variable {σ : Type}

/-- Arrange the plugins, pass the draft through them, settle it, and pass the
settled configuration through them. -/
def settle (draft : Draft) : Walk (Pipeline σ) Settling := do
  let draft ← Pipeline.configDraft draft
  Pipeline.configSettled draft.settle

/-- Create an engine from a configuration and a shared state, with the warnings
that this gives. -/
def create (config : EngineConfig σ) (shared : σ) :
    Option (Except Error (Engine σ × List Warning)) :=
  match settle config.draft ⟨Pipeline.arrange config.plugins, shared⟩ with
  | none => none
  | some (.error e, _) => some (.error e)
  | some (.ok (settled, warnings), pipeline) =>
    some (.ok ({ config := settled, pipeline := pipeline }, warnings))

/-- What a computed preflight sees of an engine. -/
def snapshot (e : Engine σ) : Snapshot :=
  ⟨e.config.namePrefix, e.config.defaultSelector, e.store⟩

/-- A walk on the pipeline as a walk on the engine. -/
def onPipeline {α : Type} : Walk (Pipeline σ) α → Walk (Engine σ) α :=
  Walk.within Engine.pipeline fun pipeline e => { e with pipeline := pipeline }

/-- What an item says. The first answer for a shortcut is kept. -/
def extractItem (budget : Nat) : StyleItem → Walk (Engine σ) (List Extracted)
  | .shortcut name => do
    let e ← get
    match Table.get? e.shortcuts name with
    | some parts => return parts
    | none =>
      let parts ← onPipeline
        (Extraction.items e.config.defaultSelector budget [] [.shortcut name])
      modify fun e => { e with shortcuts := Table.insert e.shortcuts name parts }
      return parts
  | .definition d => do
    let e ← get
    onPipeline (Extraction.definition e.config.defaultSelector budget [] d)

/-- What a list of items says. -/
def extractAll (budget : Nat) (items : List StyleItem) : Walk (Engine σ) (List Extracted) :=
  Walk.collect (extractItem budget) items

/-- Tell the listeners and then the plugins of a new rule. -/
def announce (e : Engine σ) (r : AtomicRule) : Engine σ :=
  let shared := e.listeners.foldl (fun s listener => listener r s) e.pipeline.shared
  { e with pipeline := Pipeline.ruleAdded { e.pipeline with shared := shared } }

/-- Enter a declaration into the store and announce its rule if it is new. -/
def addDeclaration (e : Engine σ) (d : Declaration) : String × Engine σ :=
  let (interned, store) := e.store.intern d e.config.namePrefix
  let e := { e with store := store }
  if interned.created then (interned.name, e.announce ⟨interned.name, d⟩)
  else (interned.name, e)

/-- Enter the slots of a merged style one after the other. -/
def addSlots (e : Engine σ) (outcome : UseOutcome) : List Slot → UseOutcome × Engine σ
  | [] => (outcome, e)
  | .unknown name :: slots =>
    addSlots e ⟨outcome.names ++ [name], pushNew outcome.unknown name⟩ slots
  | .declaration d :: slots =>
    let (name, e) := e.addDeclaration d
    addSlots e ⟨outcome.names ++ [name], outcome.unknown⟩ slots

/-- Enter the declarations of items into the store. -/
def useStyles (budget : Nat) (items : List StyleItem) : Walk (Engine σ) UseOutcome := do
  let parts ← extractAll budget items
  Walk.step fun e => e.addSlots {} (merge parts)

/-- The stylesheet of the declarations of items, name markers left in place. -/
def previewStyles (budget : Nat) (items : List StyleItem) : Walk (Engine σ) String := do
  let parts ← extractAll budget items
  return Stylesheet.preview ((merge parts).filterMap Slot.declaration?)

/-- The preflights, then the stylesheet of all rules. -/
def renderStyles (e : Engine σ) : String :=
  String.join (e.config.preflights.map fun p => p.text e.snapshot)
    ++ Stylesheet.render e.store.rules

/-- Add a listener. -/
def listen (e : Engine σ) (listener : AtomicRule → σ → σ) : Engine σ :=
  { e with listeners := e.listeners ++ [listener] }

end Engine

end AtomicCss
