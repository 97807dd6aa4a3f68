import AtomicCss.Config

/-!
# Variables

The entry `variables` declares custom properties for the root element. Nested
names are joined by hyphens, so a leaf is declared under its path; numbers keep
the text they have in a data file, and a null declares nothing.

- `Variables.collect`: the declarations of a value under a path, with the error
  of the first leaf that is neither text nor number nor null. Leaves before that
  one are declared even so.
- `Variables.configure`: declare the variables of a configuration, and add a
  preflight if there are any.
-/

namespace AtomicCss.Variables

/-- A path extended by a key. The empty path is the top level. -/
def joinPath (path key : String) : String := if path = "" then key else path ++ "-" ++ key

/-- The name of the custom property of a path. A path that is spelled as a custom
property is its own name. -/
def propertyOf (namePrefix path : String) : String :=
  match path.toList with
  | '-' :: '-' :: _ => path
  | _ => "--" ++ namePrefix ++ path

mutual

/-- The variables of a value under a path, and the error that ended the walk. -/
def collect (namePrefix path : String) : Json → List (String × String) × Except Error Unit
  | .object fields => collectFields namePrefix path fields
  | .string s => ([(propertyOf namePrefix path, s)], .ok ())
  | .int n => ([(propertyOf namePrefix path, (Json.int n).compact)], .ok ())
  | .double x => ([(propertyOf namePrefix path, (Json.double x).compact)], .ok ())
  | .null => ([], .ok ())
  | .bool b => ([], .error (.invalidFormat (.badVariable path (.bool b))))
  | .array xs => ([], .error (.invalidFormat (.badVariable path (.array xs))))
termination_by structural j => j

/-- The variables of the fields of an object under a path. -/
def collectFields (namePrefix path : String) :
    List (String × Json) → List (String × String) × Except Error Unit
  | [] => ([], .ok ())
  | (key, value) :: fields =>
    match collect namePrefix (joinPath path key) value with
    | (declared, .error e) => (declared, .error e)
    | (declared, .ok ()) =>
      let (more, result) := collectFields namePrefix path fields
      (declared ++ more, result)
termination_by structural fields => fields

end

/-- The block that declares variables on the root element. -/
def rootBlock (declared : List (String × String)) : String :=
  ":root\x7b" ++ ";".intercalate (declared.map fun d => d.1 ++ ":" ++ d.2) ++ "\x7d"

/-- Declare the variables of a configuration: what is declared afterwards, and
the configuration with the preflight, or the error. -/
def configure (c : Config) : List (String × String) × Except Error Config :=
  let (declared, result) := match Table.get? c.extra "variables" with
    | some value => collect c.namePrefix "" value
    | none => ([], .ok ())
  match result with
  | .error e => (declared, .error e)
  | .ok () =>
    if declared.isEmpty then (declared, .ok c)
    else (declared, .ok (c.addPreflight (.css (rootBlock declared))))

end AtomicCss.Variables
