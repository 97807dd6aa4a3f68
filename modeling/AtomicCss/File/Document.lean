import AtomicCss.Error
import AtomicCss.Toml.Reader

/-!
# Documents in files

Configurations and styles are documents in JSON or TOML, and the ending of a path
tells which. A file is read before its path is looked at, so a missing file of an
unknown kind is a missing file.

- `FileView`: the texts of the files that can be read.
- `FileFormat.ofPath?`: the format that a path announces.
- `FileFormat.read`, `FileFormat.limit`: the value of a document and its limits.
- `loadDocument`: read a file and decode its text.
-/

namespace AtomicCss

/-- The text of the file at a path, or why there is none. -/
abbrev FileView := String → Except String String

namespace FileFormat

/-- The format that the ending of a path announces. -/
def ofPath? (path : String) : Option FileFormat :=
  if ".json".toList.isSuffixOf path.toList then some .json
  else if ".toml".toList.isSuffixOf path.toList then some .toml
  else none

/-- The value of a document, of whose fields some may not be wanted. -/
def read (format : FileFormat) (wanted : String → Bool) (text : String) :
    Except DocumentError Json :=
  match format with
  | .json => (Json.readWanted wanted text).mapError .malformed
  | .toml => (Toml.read text).mapError .malformed

/-- A value that lies in a document below `levels` arrays and objects. Only JSON
limits what may be read; TOML has its limits in its grammar. -/
def limit (format : FileFormat) (levels : Nat) (j : Json) : Except DocumentError Json :=
  match format with
  | .json => if j.bounded (Json.greatestDepth - levels) then .ok j else .error .unbounded
  | .toml => .ok j

end FileFormat

/-- Read a file and decode its text by the format that its path announces. -/
def loadDocument {α : Type} (kind : FileKind)
    (decode : FileFormat → String → Except DocumentError α) (files : FileView)
    (path : String) : Except Error α :=
  match files path with
  | .error reason => .error (.fileNotFound kind path reason)
  | .ok text =>
    match FileFormat.ofPath? path with
    | none => .error (.invalidFormat (.unknownEnding kind))
    | some format =>
      match decode format text with
      | .ok a => .ok a
      | .error cause => .error (.invalidFormat (.badDocument format kind cause))

end AtomicCss
