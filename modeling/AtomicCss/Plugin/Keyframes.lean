import AtomicCss.Config
import AtomicCss.Style.Decoding
import AtomicCss.Text.Blank

/-!
# Keyframes

The entry `keyframes` maps names to frames, and frames to properties. A preflight
writes the keyframes whose name occurs as a word in an animation value of some
rule in the store.

- `Keyframes.words`: the words of a value, parted by blanks and commas.
- `Keyframes.isReferenced`: does an animation of a rule name the keyframes?
- `Keyframes.render`: the text of one set of keyframes.
- `Keyframes.configure`: add the preflight if any keyframes are configured.
-/

namespace AtomicCss.Keyframes

/-- Frame selectors with the properties of the frame. -/
abbrev Frames := Table String (Table String PropertyValue)

/-- The runs of characters that do not satisfy `p`, empty ones left out. -/
def runs (p : Char → Bool) : List Char → List (List Char)
  | [] => []
  | c :: cs =>
    if p c then runs p cs
    else match cs, runs p cs with
      | [], _ => [[c]]
      | d :: _, w :: ws => if p d then [c] :: w :: ws else (c :: w) :: ws
      | _ :: _, [] => [[c]]

/-- Does a character part the words of an animation value? -/
def isGap (c : Char) : Bool := Text.isBlank c || c = ','

/-- The words of a value. -/
def words (value : String) : List String := (runs isGap value.toList).map String.ofList

/-- Does the rule set an animation? -/
def isAnimation (r : AtomicRule) : Bool :=
  r.declaration.property = "animation" || r.declaration.property = "animation-name"

/-- The words of all animation values of a list of rules. -/
def referenced (rules : List AtomicRule) : List String :=
  ((rules.filter isAnimation).flatMap (·.declaration.values)).flatMap words

/-- The body of a frame: its properties with their distinct values, removals left
out. -/
def frameBody (properties : Table String PropertyValue) : String :=
  ";".intercalate (properties.filterMap fun (property, value) =>
    value.normalize.map fun values =>
      ";".intercalate (values.map fun v => propertyName property ++ ":" ++ v))

/-- The text of one set of keyframes. -/
def render (name : String) (frames : Frames) : String :=
  "@keyframes " ++ name ++ "\x7b"
    ++ String.join (frames.map fun (selector, properties) =>
        selector ++ "\x7b" ++ frameBody properties ++ "\x7d")
    ++ "\x7d"

/-- The text of the keyframes that the rules of a store refer to. -/
def preflight (keyframes : Table String Frames) (view : Snapshot) : String :=
  let used := referenced view.store.rules
  String.join ((keyframes.filter fun k => k.1 ∈ used).map fun k => render k.1 k.2)

/-- The form of the entry. -/
def decode (j : Json) : Except Misfit (Table String Frames) :=
  decodeTable (decodeTable (decodeTable
    (decodeWith .propertyValue PropertyValue.ofJson?))) j

/-- Add the preflight of the configured keyframes, if there are any. -/
def configure (c : Config) : Except Error Config := do
  match ← c.entry? "keyframes" decode with
  | none | some [] => return c
  | some keyframes => return c.addPreflight (.computed (preflight keyframes))

end AtomicCss.Keyframes
