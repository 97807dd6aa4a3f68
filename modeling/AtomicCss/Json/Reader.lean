import AtomicCss.Json.Value
import AtomicCss.Text.Scanner

/-!
# Reading JSON

A document is one value with blanks around it. Numbers are read with bounded
effort: the digits that fit sixty-four bits are kept, and one multiplication or
division by a power of ten, rounded, gives the value.

Escapes in a string have to spell characters where the string is wanted. Where it is
passed over, four hexadecimal digits are enough, and what they spell is lost.

- `Json.Significand`: the digits that are kept and the power of ten behind them.
- `Json.read`: the value of a document, or the place where it is malformed.
- `Json.readWanted`: the same for a document of which only some fields are wanted.
-/

namespace AtomicCss.Json

open AtomicCss.Text

/-! ## Numbers -/

/-- Digits read so far: `value * 10 ^ exponent`. Once a digit does not fit,
`full` is set and the digits behind it are not kept. -/
structure Significand where
  value : Nat := 0
  exponent : Int := 0
  full : Bool := false

namespace Significand

/-- The greatest value that is kept. -/
def limit : Nat := Nat.pow 2 64 - 1

/-- A digit before the point. One that is not kept still counts as a place. -/
def pushInteger (s : Significand) (d : Nat) : Significand :=
  if s.full || limit < s.value * 10 + d then { s with exponent := s.exponent + 1, full := true }
  else { s with value := s.value * 10 + d }

/-- A digit behind the point. One that is not kept has no effect. -/
def pushFraction (s : Significand) (d : Nat) : Significand :=
  if s.full || limit < s.value * 10 + d then { s with full := true }
  else { s with value := s.value * 10 + d, exponent := s.exponent - 1 }

/-- The double `f * 10 ^ e`, rounded after each of at most a few operations.
Powers beyond `10 ^ 308` overflow, and below `10 ^ -308` the division is done in
steps until nothing is left. -/
def scale : (steps : Nat) → Double → Int → Double
  | 0, f, _ => f
  | steps + 1, f, e =>
    if f.magnitude.1 = 0 then f
    else if 308 < e then .infinite false
    else if 0 ≤ e then f.mul (.powerOfTen e.toNat)
    else if -308 ≤ e then f.div (.powerOfTen (-e).toNat)
    else scale steps (f.div (.powerOfTen 308)) (e + 308)

/-- The double of a significand with a further exponent. -/
def toDouble (s : Significand) (negative : Bool) (exponent : Int) : Double :=
  let x := scale 4 (.ofInt s.value) (s.exponent + exponent)
  if negative then x.neg else x

end Significand

/-- The value of a decimal digit. -/
def digitValue (c : Char) : Nat := c.toNat - '0'.toNat

/-- The natural number of a list of decimal digits. -/
def naturalOfDigits (ds : List Char) : Nat := ds.foldl (fun n d => n * 10 + digitValue d) 0

/-- An integer literal: an integer if it fits sixty-four bits, and the double
otherwise; `-0` is a double as well. -/
def ofIntegerLiteral (negative : Bool) (s : Significand) : Json :=
  if s.full then .double (s.toDouble negative 0)
  else if !negative then .int s.value
  else if 0 < s.value ∧ s.value ≤ Nat.pow 2 63 then .int (-(s.value : Int))
  else .double (s.toDouble true 0)

/-- The exponent part of a number, behind its letter. -/
def exponentPart : Scanner Int := do
  let negative ← Scanner.accept ['-']
  if !negative then
    let _ ← Scanner.accept ['+']
  let ds ← Scanner.takeWhile1 Char.isDigit
  return if negative then -(naturalOfDigits ds : Int) else naturalOfDigits ds

/-- A number. -/
def number : Scanner Json := do
  let negative ← Scanner.accept ['-']
  let ds ← Scanner.takeWhile1 Char.isDigit
  if ds.head? = some '0' && ds.length ≠ 1 then Scanner.fail
  let s := ds.foldl (fun s d => s.pushInteger (digitValue d)) ({} : Significand)
  if ← Scanner.accept ['.'] then
    let fs ← Scanner.takeWhile1 Char.isDigit
    let s := fs.foldl (fun s d => s.pushFraction (digitValue d)) { s with full := false }
    match ← Scanner.peek? with
    | some 'e' | some 'E' =>
      let _ ← Scanner.next
      return .double (s.toDouble negative (← exponentPart))
    | _ => return .double (s.toDouble negative 0)
  else
    match ← Scanner.peek? with
    | some 'e' | some 'E' =>
      let _ ← Scanner.next
      return .double (s.toDouble negative (← exponentPart))
    | _ => return ofIntegerLiteral negative s

/-! ## Strings -/

/-- The value of a hexadecimal digit. -/
def hexValue? (c : Char) : Option Nat :=
  if '0' ≤ c ∧ c ≤ '9' then some (c.toNat - '0'.toNat)
  else if 'a' ≤ c ∧ c ≤ 'f' then some (c.toNat - 'a'.toNat + 10)
  else if 'A' ≤ c ∧ c ≤ 'F' then some (c.toNat - 'A'.toNat + 10)
  else none

/-- The value of four hexadecimal digits. -/
def hexWord? (a b c d : Char) : Option Nat := do
  return (((← hexValue? a) * 16 + (← hexValue? b)) * 16 + (← hexValue? c)) * 16 + (← hexValue? d)

/-- The character of a two-character escape. -/
def escaped? (c : Char) : Option Char :=
  if c = '"' ∨ c = '\\' ∨ c = '/' then some c
  else if c = 'b' then some (Char.ofNat 0x08)
  else if c = 'f' then some (Char.ofNat 0x0C)
  else if c = 'n' then some '\n'
  else if c = 'r' then some '\r'
  else if c = 't' then some '\t'
  else none

/-- The rest of a string literal behind its opening quote. `high` is the first
half of a surrogate pair that waits for the second; `seen` holds the characters
read so far, the last one first. -/
def stringBody (wanted : Bool) (high : Option Nat) (seen : List Char) :
    List Char → Except (List Char) (String × List Char)
  | [] => .error []
  | '\\' :: 'u' :: a :: b :: c :: d :: rest =>
    match hexWord? a b c d, high with
    | none, _ => .error (a :: b :: c :: d :: rest)
    | some w, none =>
      if !wanted then stringBody wanted none (Char.ofNat w :: seen) rest
      else if 0xD800 ≤ w ∧ w ≤ 0xDBFF then stringBody wanted (some w) seen rest
      else if 0xDC00 ≤ w ∧ w ≤ 0xDFFF then .error rest
      else stringBody wanted none (Char.ofNat w :: seen) rest
    | some w, some h =>
      if 0xDC00 ≤ w ∧ w ≤ 0xDFFF then
        let code := 0x10000 + (h - 0xD800) * 0x400 + (w - 0xDC00)
        stringBody wanted none (Char.ofNat code :: seen) rest
      else .error rest
  | '\\' :: c :: rest =>
    match escaped? c, high with
    | some e, none => stringBody wanted none (e :: seen) rest
    | _, _ => .error (c :: rest)
  | c :: rest =>
    if high.isSome ∨ c.toNat < 0x20 then .error (c :: rest)
    else if c = '"' then .ok (String.ofList seen.reverse, rest)
    else stringBody wanted none (c :: seen) rest

/-- A string literal. -/
def stringLiteral (wanted : Bool) : Scanner String := do
  Scanner.expect ['"']
  stringBody wanted none []

/-! ## Values -/

/-- A character between the parts of a document. -/
def isSeparator (c : Char) : Bool := c = ' ' || c = '\n' || c = '\t' || c = '\r'

/-- Pass over blanks. -/
def blanks : Scanner Unit := Scanner.skipWhile isSeparator

mutual

/-- A value. Every second step consumes a character, which bounds the steps. -/
def value (wanted : Bool) : (steps : Nat) → Scanner Json
  | 0 => Scanner.fail
  | steps + 1 => do
    blanks
    match ← Scanner.peek? with
    | some '\x7b' =>
      let _ ← Scanner.next
      blanks
      if ← Scanner.accept ['\x7d'] then return .object []
      return .object (← fields wanted (fun _ => wanted) steps)
    | some '[' =>
      let _ ← Scanner.next
      blanks
      if ← Scanner.accept [']'] then return .array []
      return .array (← elements wanted steps)
    | some '"' => return .string (← stringLiteral wanted)
    | some 't' => Scanner.expect "true".toList; return .bool true
    | some 'f' => Scanner.expect "false".toList; return .bool false
    | some 'n' => Scanner.expect "null".toList; return .null
    | _ => number

/-- The elements of an array and its closing bracket. -/
def elements (wanted : Bool) : (steps : Nat) → Scanner (List Json)
  | 0 => Scanner.fail
  | steps + 1 => do
    let x ← value wanted steps
    blanks
    if ← Scanner.accept [','] then return x :: (← elements wanted steps)
    Scanner.expect [']']
    return [x]

/-- The fields of an object and its closing brace. Whether a value is wanted depends
on its key. -/
def fields (wantedKeys : Bool) (wanted : String → Bool) :
    (steps : Nat) → Scanner (List (String × Json))
  | 0 => Scanner.fail
  | steps + 1 => do
    blanks
    let k ← stringLiteral wantedKeys
    blanks
    Scanner.expect [':']
    let v ← value (wanted k) steps
    blanks
    if ← Scanner.accept [','] then return (k, v) :: (← fields wantedKeys wanted steps)
    Scanner.expect ['\x7d']
    return [(k, v)]

end

/-- The value of a document. If it is an object, its fields are wanted by their keys. -/
def readWanted (wanted : String → Bool) (text : String) : Except Position Json :=
  let cs := text.toList
  let steps := 2 * cs.length + 2
  let document : Scanner Json := do
    blanks
    let j ←
      if ← Scanner.accept ['\x7b'] then
        blanks
        if ← Scanner.accept ['\x7d'] then pure (.object [])
        else pure (.object (← fields true wanted steps))
      else value true steps
    blanks
    return j
  document.run cs

/-- The value of a document, all of which is wanted. -/
def read (text : String) : Except Position Json := readWanted (fun _ => true) text

end AtomicCss.Json
