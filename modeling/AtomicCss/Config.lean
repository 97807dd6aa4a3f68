import AtomicCss.Error
import AtomicCss.Store

/-!
# Configuration

An engine is configured by a draft, which plugins may still change, and works
with the settled configuration in which every default is applied.

- `Draft`: the configuration as given, without its plugins.
- `Config`: the settled configuration.
- `Draft.settle`: from one to the other, with the warnings that this gives.
- `Preflight`: text in front of the rules, fixed or computed from a `Snapshot`
  of the engine whenever the stylesheet is rendered.
-/

namespace AtomicCss

/-- The default selector of an engine that names none. -/
def standardSelector : String := ".$$"

/-- What a computed preflight may look at. -/
structure Snapshot where
  namePrefix : String
  defaultSelector : String
  store : Store

/-- Text that stands in front of the rules of a stylesheet. -/
inductive Preflight where
  | css (text : String)
  | computed (render : Snapshot → String)

/-- The text of a preflight. -/
def Preflight.text : Preflight → Snapshot → String
  | .css text, _ => text
  | .computed render, view => render view

/-- A configuration in which defaults are still open. -/
structure Draft where
  /-- Stands in front of the name of every rule. -/
  namePrefix : Option String := none
  /-- The selector that a host marker stands for. -/
  defaultSelector : Option String := none
  preflights : List Preflight := []
  /-- Entries for plugins, by key. -/
  extra : Table String Json := []
  /-- How many plugins were added after the plugins had been arranged. -/
  latePlugins : Nat := 0

/-- A configuration with all defaults applied. -/
structure Config where
  namePrefix : String := ""
  defaultSelector : String := standardSelector
  preflights : List Preflight := []
  extra : Table String Json := []

/-- Apply the defaults. A default selector without a name marker and plugins that
come too late are reported. -/
def Draft.settle (d : Draft) : Config × List Warning :=
  let selector := d.defaultSelector.getD standardSelector
  ({ namePrefix := d.namePrefix.getD ""
     defaultSelector := selector
     preflights := d.preflights
     extra := d.extra },
    (if Selector.hasName selector.toList then [] else [.unanchoredDefault selector])
      ++ (if d.latePlugins = 0 then [] else [.latePlugins d.latePlugins]))

namespace Config

/-- The entry of a key, decoded. An absent entry is none, one of the wrong form
an error. -/
def entry? {α : Type} (c : Config) (key : String) (decode : Json → Except Misfit α) :
    Except Error (Option α) :=
  match Table.get? c.extra key with
  | none => .ok none
  | some value =>
    match decode value with
    | .ok a => .ok (some a)
    | .error m => .error (.invalidFormat (.badEntry key m))

/-- The configuration with one more preflight. -/
def addPreflight (c : Config) (p : Preflight) : Config :=
  { c with preflights := c.preflights ++ [p] }

end Config

end AtomicCss
