import AtomicCss.File.Document
import AtomicCss.Style.Decoding

/-!
# Styles files

A styles file lists calls, and a call lists style items. The calls stand under the
key `calls` of an object, or in a list of nothing else. Whatever stands under other
keys has to be well formed but means nothing.

- `StylesFile.calls`: where the calls stand in a document.
- `StylesFile.load`: the calls in a file.
-/

namespace AtomicCss.StylesFile

/-- The list of calls of a document, which may be left out. -/
def calls : Json → Except DocumentError Json
  | .object fields =>
    match fields.filter fun f => f.1 = "calls" with
    | [] => .ok (.array [])
    | [(_, j)] => .ok j
    | _ => .error (.repeated "calls")
  | .array [] => .ok (.array [])
  | .array [j] => .ok j
  | .array elements => .error (.misfit (.tooLong elements.length))
  | j => .error (.misfit (.wrongForm j .map))

/-- The calls in the text of a file. -/
def decode (format : FileFormat) (text : String) :
    Except DocumentError (List (List StyleItem)) := do
  let j ← format.limit 1 (← calls (← format.read (· = "calls") text))
  (decodeCalls j).mapError .misfit

/-- The calls in a file. -/
def load (files : FileView) (path : String) : Except Error (List (List StyleItem)) :=
  loadDocument .styles decode files path

end AtomicCss.StylesFile
