import AtomicCss.Json.Value
import AtomicCss.Text.Quoted

/-!
# Values of the wrong form

A configuration value or a style that does not have the form it should have is
described by a `Misfit`: what was found, and what was expected.

- `Misfit`: the causes.
- `Misfit.message`: their wording.
-/

namespace AtomicCss

/-- The forms that a value can be expected to have. -/
inductive Form where
  | sequence
  | map
  | string
  | boolean
  | pair
  | importantOptions
  deriving DecidableEq, Repr

/-- The types whose values come in several forms, tried one after the other. -/
inductive Alternatives where
  | styleItem
  | styleValue
  | propertyValue
  | oneOrMany
  deriving DecidableEq, Repr

/-- Why a value does not have the form it should have. -/
inductive Misfit where
  /-- A value of another form was found. -/
  | wrongForm (found : Json) (expected : Form)
  /-- A sequence ended too early. -/
  | tooShort (length : Nat) (expected : Form)
  /-- A sequence of the given length goes on too long. -/
  | tooLong (length : Nat)
  /-- No alternative fits. -/
  | noAlternative (expected : Alternatives)

/-- A form in words. -/
def Form.describe : Form → String
  | .sequence => "a sequence"
  | .map => "a map"
  | .string => "a string"
  | .boolean => "a boolean"
  | .pair => "a tuple of size 2"
  | .importantOptions => "struct ImportantOptions"

/-- The name of a type with alternatives. -/
def Alternatives.describe : Alternatives → String
  | .styleItem => "StyleItem"
  | .styleValue => "StyleValue"
  | .propertyValue => "PropertyValue"
  | .oneOrMany => "OneOrMany"

/-- What a value is called in a message. -/
def Json.describe : Json → String
  | .null => "null"
  | .bool b => "boolean `" ++ (if b then "true" else "false") ++ "`"
  | .int n => "integer `" ++ toString n ++ "`"
  | .double x => "floating point `" ++ NumberFormat.data.render x ++ "`"
  | .string s => "string " ++ Text.quoted s
  | .array _ => "sequence"
  | .object _ => "map"

/-- The wording of a misfit. -/
def Misfit.message : Misfit → String
  | .wrongForm found expected =>
    "invalid type: " ++ found.describe ++ ", expected " ++ expected.describe
  | .tooShort length expected =>
    "invalid length " ++ toString length ++ ", expected " ++ expected.describe
  | .tooLong length =>
    "invalid length " ++ toString length ++ ", expected fewer elements in array"
  | .noAlternative expected =>
    "data did not match any variant of untagged enum " ++ expected.describe

end AtomicCss
