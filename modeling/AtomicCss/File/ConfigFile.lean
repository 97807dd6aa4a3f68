import AtomicCss.Engine
import AtomicCss.File.Document

/-!
# Configuration files

A configuration file is an object. Three of its keys configure the engine itself;
every other key is an entry for plugins.

- `ConfigFile`: what a configuration file says.
- `ConfigFile.ofDocument`: the configuration of a document. A key of the engine
  may be given once, under either of its names; a repeated entry for plugins keeps
  its first place and takes its last value.
- `ConfigFile.load`: the configuration in a file.
- `ConfigFile.engineConfig`: the configuration of an engine with the plugins that
  come with the library.
-/

namespace AtomicCss

/-- What a configuration file says. -/
structure ConfigFile where
  namePrefix : Option String := none
  defaultSelector : Option String := none
  preflights : Option (List String) := none
  /-- Entries for plugins. -/
  extra : Table String Json := []

/-- The keys that configure the engine itself. -/
inductive ConfigKey where
  | namePrefix
  | defaultSelector
  | preflights
  deriving DecidableEq, Repr

/-- The first name of a key. -/
def ConfigKey.name : ConfigKey → String
  | .namePrefix => "prefix"
  | .defaultSelector => "default_selector"
  | .preflights => "preflights"

/-- The key of a name. -/
def ConfigKey.ofName? (name : String) : Option ConfigKey :=
  if name = "prefix" then some .namePrefix
  else if name = "default_selector" ∨ name = "defaultSelector" then some .defaultSelector
  else if name = "preflights" then some .preflights
  else none

/-- A value that may be null instead. -/
def decodeOptional {α : Type} (f : Json → Except Misfit α) : Json → Except Misfit (Option α)
  | .null => .ok none
  | j => (f j).map some

namespace ConfigFile

/-- The configuration with the value of a key of the engine. -/
def setKey (c : ConfigFile) (key : ConfigKey) (j : Json) : Except Misfit ConfigFile :=
  match key with
  | .namePrefix => (decodeOptional decodeString j).map fun v => { c with namePrefix := v }
  | .defaultSelector =>
    (decodeOptional decodeString j).map fun v => { c with defaultSelector := v }
  | .preflights => (decodeOptional decodeStrings j).map fun v => { c with preflights := v }

/-- The configuration with one more entry for plugins. -/
def addExtra (c : ConfigFile) (key : String) (j : Json) : ConfigFile :=
  { c with extra := Table.insert c.extra key j.settle.writable }

/-- Enter the fields of a document one after the other; `given` holds the keys of
the engine that have been entered. -/
def addFields (given : List ConfigKey) (c : ConfigFile) :
    List (String × Json) → Except DocumentError ConfigFile
  | [] => .ok c
  | (name, j) :: fields =>
    match ConfigKey.ofName? name with
    | none => addFields given (c.addExtra name j) fields
    | some key =>
      if key ∈ given then .error (.repeated key.name)
      else
        match c.setKey key j with
        | .ok c => addFields (key :: given) c fields
        | .error m => .error (.misfit m)

/-- The configuration of a document. -/
def ofDocument : Json → Except DocumentError ConfigFile
  | .object fields => addFields [] {} fields
  | j => .error (.misfit (.wrongForm j .map))

/-- The configuration in the text of a file. -/
def decode (format : FileFormat) (text : String) : Except DocumentError ConfigFile := do
  ofDocument (← format.limit 0 (← format.read (fun _ => true) text))

/-- The configuration in a file. -/
def load (files : FileView) (path : String) : Except Error ConfigFile :=
  loadDocument .config decode files path

/-- The configuration of an engine with the plugins of the library. -/
def engineConfig {σ : Type} (c : ConfigFile) : EngineConfig σ :=
  { draft :=
      { namePrefix := c.namePrefix
        defaultSelector := c.defaultSelector
        preflights := (c.preflights.getD []).map .css
        extra := c.extra }
    plugins := [.core] }

end ConfigFile

end AtomicCss
