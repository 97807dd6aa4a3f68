import AtomicCss.Number.Text
import AtomicCss.Table

/-!
# Style values and definitions

A style definition maps property names and selectors to values. A value sets a
property, opens a nested definition, or lists items that hold under the key as a
selector; an item is a shortcut name or a definition.

- `Scalar`, `PropertyValue`: what a property can be set to.
- `PropertyValue.normalize`: the texts that a declaration lists, none for a
  removal.
- `StyleValue`, `StyleItem`, `StyleDefinition`: style trees.
- `propertyName`: the spelling of a property in a stylesheet.
-/

namespace AtomicCss

/-- A single value of a property. -/
inductive Scalar where
  | text (s : String)
  | number (x : Double)
  | flag (b : Bool)
  deriving DecidableEq, Repr

/-- The text of a scalar in a stylesheet. -/
def Scalar.render : Scalar → String
  | .text s => s
  | .number x => NumberFormat.style.render x
  | .flag b => if b then "true" else "false"

/-- What a property is set to: one value, a value with fallbacks, or nothing at
all, which removes what was set before. -/
inductive PropertyValue where
  | scalar (s : Scalar)
  | fallback (primary : Scalar) (rest : List Scalar)
  | removal
  deriving DecidableEq, Repr

/-- Put `x` behind the texts unless it is among them. -/
def pushNew {α : Type} [DecidableEq α] (xs : List α) (x : α) : List α :=
  if x ∈ xs then xs else xs ++ [x]

/-- The distinct elements of a list in the order of their first occurrences. -/
def distinct {α : Type} [DecidableEq α] (xs : List α) : List α := xs.foldl pushNew []

/-- The distinct texts of a value in order; a removal has none. -/
def PropertyValue.normalize : PropertyValue → Option (List String)
  | .scalar s => some [s.render]
  | .fallback primary rest => some (distinct ((primary :: rest).map Scalar.render))
  | .removal => none

mutual

/-- The value of a key in a style definition. -/
inductive StyleValue where
  | nested (definition : List (String × StyleValue))
  | property (value : PropertyValue)
  | items (items : List StyleItem)

/-- A part of a style: the name of a shortcut, or a definition. -/
inductive StyleItem where
  | shortcut (name : String)
  | definition (definition : List (String × StyleValue))

end

/-- A table of property names and selectors with their values. -/
abbrev StyleDefinition := Table String StyleValue

/-- The name of a shortcut item. -/
def StyleItem.shortcut? : StyleItem → Option String
  | .shortcut name => some name
  | .definition _ => none

/-- The spelling of a property in a stylesheet: ASCII capitals become a hyphen
and the small letter. Custom properties, which start with two hyphens, are kept
as they are. -/
def propertyName (key : String) : String :=
  match key.toList with
  | '-' :: '-' :: _ => key
  | cs => String.ofList (cs.flatMap fun c => if c.isUpper then ['-', c.toLower] else [c])

end AtomicCss
