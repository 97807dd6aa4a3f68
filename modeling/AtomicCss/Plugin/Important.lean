import AtomicCss.Config
import AtomicCss.Style.Decoding
import AtomicCss.Text.Blank

/-!
# Important declarations

A definition whose flag is set has all its own values marked as important. The
flag is the entry `__important` of the definition, which is not a property, or
else the configured default.

- `Important.markScalar`: a scalar with the mark, unless it has it already.
- `Important.apply`: a definition without its flag, marked if the flag is set.
- `Important.configure`: the configured default.
-/

namespace AtomicCss.Important

/-- The key of the flag of a definition. -/
def flagKey : String := "__important"

/-- The mark. -/
def mark : List Char := "!important".toList

/-- The flag that a value stands for: a boolean, or its text. -/
def flag? : StyleValue → Option Bool
  | .property (.scalar (.flag b)) => some b
  | .property (.scalar (.text s)) =>
    if s = "true" then some true else if s = "false" then some false else none
  | _ => none

/-- Does a text end in the mark, blanks behind it ignored? -/
def isMarked (cs : List Char) : Bool := mark.isSuffixOf (Text.trimEnd cs)

/-- The text of a scalar with the mark. -/
def markText (s : String) : String :=
  if isMarked s.toList then s else s ++ " " ++ String.ofList mark

/-- A scalar with the mark, which makes it a text. -/
def markScalar (s : Scalar) : Scalar := .text (markText s.render)

/-- A value with the mark. Only values of properties can have it. -/
def markValue : StyleValue → StyleValue
  | .property (.scalar s) => .property (.scalar (markScalar s))
  | .property (.fallback primary rest) =>
    .property (.fallback (markScalar primary) (rest.map markScalar))
  | v => v

/-- The flag of a definition. -/
def flagOf (standard : Bool) (d : StyleDefinition) : Bool :=
  ((Table.get? d flagKey).bind flag?).getD standard

/-- A definition without its flag, its values marked if the flag is set. -/
def apply (standard : Bool) (d : StyleDefinition) : StyleDefinition :=
  let rest := Table.erase d flagKey
  if flagOf standard d then rest.map fun (k, v) => (k, markValue v) else rest

/-- The form of the entry: a map of options, or the options in order. -/
def decode : Json → Except Misfit Bool
  | .object fields =>
    match Table.get? fields "default" with
    | some value => decodeBool value
    | none => .ok false
  | .array [] => .ok false
  | .array (first :: rest) => do
    let b ← decodeBool first
    if rest.isEmpty then return b else throw (.tooLong (rest.length + 1))
  | j => .error (.wrongForm j .importantOptions)

/-- The configured default of the flag. -/
def configure (c : Config) : Except Error Bool := do
  return (← c.entry? "important" decode).getD false

end AtomicCss.Important
