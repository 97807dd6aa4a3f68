import AtomicCss.Number.Text
import AtomicCss.Table

/-!
# JSON values

Configuration and style files hold JSON values, or values that have a JSON form.
An object is the list of its fields as they are written, so a field may be
repeated; `Json.settle` keeps one field of each name.

- `Json`: the values. A number written without point or exponent is an integer
  when it fits sixty-four bits, signed or unsigned; any other is a double.
- `Json.settle`: every repeated field at its first place with its last value.
- `Json.depth`, `Json.bounded`: the limits that a document has to respect.
- `Json.writable`: the value with every number that has no text taken out.
- `Json.compact`: the text of a value without blanks.
-/

namespace AtomicCss

/-- A JSON value. -/
inductive Json where
  | null
  | bool (b : Bool)
  | int (n : Int)
  | double (x : Double)
  | string (s : String)
  | array (elements : List Json)
  | object (fields : List (String × Json))

namespace Json

/-! ## Repeated fields -/

mutual

/-- Keep one field of each name in every object: its first place, its last
value. -/
def settle : Json → Json
  | .array xs => .array (settleElements xs)
  | .object fs => .object (Table.ofEntries (settleFields fs))
  | .null => .null
  | .bool b => .bool b
  | .int n => .int n
  | .double x => .double x
  | .string s => .string s
termination_by structural j => j

/-- `settle` on every element. -/
def settleElements : List Json → List Json
  | [] => []
  | x :: xs => settle x :: settleElements xs
termination_by structural xs => xs

/-- `settle` on the value of every field. -/
def settleFields : List (String × Json) → List (String × Json)
  | [] => []
  | (k, v) :: fs => (k, settle v) :: settleFields fs
termination_by structural fs => fs

end

/-! ## Limits -/

mutual

/-- How many arrays and objects are nested in each other. -/
def depth : Json → Nat
  | .array xs => depthElements xs + 1
  | .object fs => depthFields fs + 1
  | .null | .bool _ | .int _ | .double _ | .string _ => 0
termination_by structural j => j

/-- The greatest depth of an element. -/
def depthElements : List Json → Nat
  | [] => 0
  | x :: xs => max (depth x) (depthElements xs)
termination_by structural xs => xs

/-- The greatest depth of the value of a field. -/
def depthFields : List (String × Json) → Nat
  | [] => 0
  | (_, v) :: fs => max (depth v) (depthFields fs)
termination_by structural fs => fs

end

mutual

/-- Is every number in the value finite? -/
def finite : Json → Bool
  | .array xs => finiteElements xs
  | .object fs => finiteFields fs
  | .double (.finite _ _ _) => true
  | .double _ => false
  | .null | .bool _ | .int _ | .string _ => true
termination_by structural j => j

/-- Is every number in the elements finite? -/
def finiteElements : List Json → Bool
  | [] => true
  | x :: xs => finite x && finiteElements xs
termination_by structural xs => xs

/-- Is every number in the fields finite? -/
def finiteFields : List (String × Json) → Bool
  | [] => true
  | (_, v) :: fs => finite v && finiteFields fs
termination_by structural fs => fs

end

mutual

/-- Numbers that JSON cannot write become null. -/
def writable : Json → Json
  | .array xs => .array (writableElements xs)
  | .object fs => .object (writableFields fs)
  | .double (.finite negative m e) => .double (.finite negative m e)
  | .double _ => .null
  | .null => .null
  | .bool b => .bool b
  | .int n => .int n
  | .string s => .string s
termination_by structural j => j

/-- `writable` on every element. -/
def writableElements : List Json → List Json
  | [] => []
  | x :: xs => writable x :: writableElements xs
termination_by structural xs => xs

/-- `writable` on the value of every field. -/
def writableFields : List (String × Json) → List (String × Json)
  | [] => []
  | (k, v) :: fs => (k, writable v) :: writableFields fs
termination_by structural fs => fs

end

/-- The greatest depth of a document. -/
def greatestDepth : Nat := 127

/-- Does a value nest at most `limit` deep and hold finite numbers only? -/
def bounded (limit : Nat) (j : Json) : Bool := j.depth ≤ limit && j.finite

/-! ## Text -/

/-- A digit of a four-digit escape. -/
def hexDigit (d : Nat) : Char := Nat.digitChar d

/-- A character inside a string literal. Quotes, backslashes and the control
characters below the blank are escaped. -/
def escapeChar (c : Char) : List Char :=
  if c = '"' then ['\\', '"']
  else if c = '\\' then ['\\', '\\']
  else if c = '\n' then ['\\', 'n']
  else if c = '\r' then ['\\', 'r']
  else if c = '\t' then ['\\', 't']
  else if c.toNat = 0x08 then ['\\', 'b']
  else if c.toNat = 0x0C then ['\\', 'f']
  else if c.toNat < 0x20 then
    ['\\', 'u', '0', '0', hexDigit (c.toNat / 16), hexDigit (c.toNat % 16)]
  else [c]

/-- A string literal. -/
def quote (s : String) : List Char := '"' :: (s.toList.flatMap escapeChar ++ ['"'])

mutual

/-- The characters of a value without blanks between them. -/
def chars : Json → List Char
  | .null => "null".toList
  | .bool b => (if b then "true" else "false").toList
  | .int n => (toString n).toList
  | .double x => (NumberFormat.data.render x).toList
  | .string s => quote s
  | .array xs => '[' :: (elementChars xs ++ [']'])
  | .object fs => '\x7b' :: (fieldChars fs ++ ['\x7d'])
termination_by structural j => j

/-- The characters of the elements of an array, between its brackets. -/
def elementChars : List Json → List Char
  | [] => []
  | x :: xs => chars x ++ (if xs.isEmpty then [] else ',' :: elementChars xs)
termination_by structural xs => xs

/-- The characters of the fields of an object, between its braces. -/
def fieldChars : List (String × Json) → List Char
  | [] => []
  | (k, v) :: fs =>
    quote k ++ ':' :: (chars v ++ (if fs.isEmpty then [] else ',' :: fieldChars fs))
termination_by structural fs => fs

end

/-- The text of a value without blanks. -/
def compact (j : Json) : String := String.ofList j.chars

/-- The array of a list of strings. -/
def strings (xs : List String) : Json := .array (xs.map .string)

end Json

end AtomicCss
