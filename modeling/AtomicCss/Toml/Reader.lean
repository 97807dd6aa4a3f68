import AtomicCss.Json.Reader
import AtomicCss.Toml.DateTime
import AtomicCss.Toml.Document

/-!
# Reading TOML

A document is read line by line into sections, and the sections give its value in
the form of JSON. Numbers may be infinite or not a number, and a date or time is
an object with a single field.

- `scalar?`: the value of a word such as `true`, `0x1F`, `1_000.5` or a date.
- `value`: a value, nested at most `greatestDepth` deep.
- `read`: the value of a document, or the place where it is malformed.
-/

namespace AtomicCss.Toml

open AtomicCss.Text

/-! ## Blanks and comments -/

/-- A blank within a line. -/
def isBlank (c : Char) : Bool := c = ' ' || c = '\t'

/-- A character that may stand in a comment or in a string as it is. -/
def isPlain (c : Char) : Bool := c = '\t' || (0x20 ≤ c.toNat && c.toNat ≠ 0x7F)

/-- Pass over blanks. -/
def blanks : Scanner Unit := Scanner.skipWhile isBlank

/-- Consume a line end if it comes next. -/
def newline : Scanner Bool := do
  if ← Scanner.accept ['\n'] then return true
  Scanner.accept ['\r', '\n']

/-- Pass over a comment. -/
def comment : Scanner Unit := do
  if ← Scanner.accept ['#'] then Scanner.skipWhile isPlain

/-- The rest of a line, which holds no more than a comment. -/
def lineEnd : Scanner Unit := do
  blanks
  comment
  if ← newline then return
  Scanner.finish

/-- The text behind blanks, line ends and comments. -/
def dropGaps (inComment : Bool) : List Char → List Char
  | [] => []
  | '\r' :: '\n' :: cs => dropGaps false cs
  | c :: cs =>
    if c = '\n' then dropGaps false cs
    else if inComment then if isPlain c then dropGaps true cs else c :: cs
    else if isBlank c then dropGaps false cs
    else if c = '#' then dropGaps true cs
    else c :: cs

/-- Pass over blanks, line ends and comments. -/
def gaps : Scanner Unit := modify (dropGaps false)

/-! ## Strings -/

/-- The character of a one-letter escape. -/
def escaped? (c : Char) : Option Char :=
  if c = '"' ∨ c = '\\' then some c
  else if c = 'b' then some (Char.ofNat 0x08)
  else if c = 't' then some '\t'
  else if c = 'n' then some '\n'
  else if c = 'f' then some (Char.ofNat 0x0C)
  else if c = 'r' then some '\r'
  else none

/-- The character of a code in hexadecimal digits. -/
def coded? (ds : List Char) : Option Char := do
  let n ← ds.foldlM (fun n d => return n * 16 + (← Json.hexValue? d)) 0
  if (0xD800 ≤ n ∧ n ≤ 0xDFFF) ∨ 0x10FFFF < n then none else some (Char.ofNat n)

/-- What has been read of a string, the last character first, as a string. -/
def finished (seen : List Char) : String := String.ofList seen.reverse

/-- A string in double quotes behind its opening quote. -/
def basicBody (seen : List Char) : List Char → Except (List Char) (String × List Char)
  | [] => .error []
  | '\\' :: 'u' :: a :: b :: c :: d :: rest =>
    match coded? [a, b, c, d] with
    | some x => basicBody (x :: seen) rest
    | none => .error (a :: rest)
  | '\\' :: 'U' :: a :: b :: c :: d :: e :: f :: g :: h :: rest =>
    match coded? [a, b, c, d, e, f, g, h] with
    | some x => basicBody (x :: seen) rest
    | none => .error (a :: rest)
  | '\\' :: c :: rest =>
    match escaped? c with
    | some x => basicBody (x :: seen) rest
    | none => .error (c :: rest)
  | c :: rest =>
    if c = '"' then .ok (finished seen, rest)
    else if isPlain c then basicBody (c :: seen) rest
    else .error (c :: rest)

/-- Up to two quotes in front of a closing mark belong to the string. -/
def closing (quote : Char) (seen rest : List Char) : String × List Char :=
  match rest with
  | a :: b :: rest' =>
    if a = quote ∧ b = quote then (finished (quote :: quote :: seen), rest')
    else if a = quote then (finished (quote :: seen), b :: rest')
    else (finished seen, rest)
  | [a] => if a = quote then (finished (quote :: seen), []) else (finished seen, rest)
  | [] => (finished seen, [])

/-- Is there nothing but blanks up to the end of the line? -/
def lineIsBlank (cs : List Char) : Bool :=
  match cs.dropWhile isBlank with
  | '\n' :: _ => true
  | '\r' :: '\n' :: _ => true
  | _ => false

/-- A string of several lines in double quotes. A backslash at the end of a line
takes away the line end with all blanks and line ends behind it, which `folding`
is about. Line ends are read as line feeds. -/
def multilineBody (folding : Bool) (seen : List Char) :
    List Char → Except (List Char) (String × List Char)
  | [] => .error []
  | '"' :: '"' :: '"' :: rest => .ok (closing '"' seen rest)
  | '\r' :: '\n' :: rest => multilineBody folding (if folding then seen else '\n' :: seen) rest
  | '\\' :: 'u' :: a :: b :: c :: d :: rest =>
    match coded? [a, b, c, d] with
    | some x => multilineBody false (x :: seen) rest
    | none => .error (a :: rest)
  | '\\' :: 'U' :: a :: b :: c :: d :: e :: f :: g :: h :: rest =>
    match coded? [a, b, c, d, e, f, g, h] with
    | some x => multilineBody false (x :: seen) rest
    | none => .error (a :: rest)
  | '\\' :: c :: rest =>
    match escaped? c with
    | some x => multilineBody false (x :: seen) rest
    | none =>
      if lineIsBlank (c :: rest) then multilineBody true seen (c :: rest)
      else .error (c :: rest)
  | c :: rest =>
    if folding ∧ (isBlank c ∨ c = '\n') then multilineBody true seen rest
    else if c = '\n' ∨ isPlain c ∧ c ≠ '\\' then multilineBody false (c :: seen) rest
    else .error (c :: rest)

/-- A string in single quotes behind its opening quote. -/
def literalBody (seen : List Char) : List Char → Except (List Char) (String × List Char)
  | [] => .error []
  | c :: rest =>
    if c = '\'' then .ok (finished seen, rest)
    else if isPlain c then literalBody (c :: seen) rest
    else .error (c :: rest)

/-- A string of several lines in single quotes. -/
def multilineLiteralBody (seen : List Char) :
    List Char → Except (List Char) (String × List Char)
  | [] => .error []
  | '\'' :: '\'' :: '\'' :: rest => .ok (closing '\'' seen rest)
  | '\r' :: '\n' :: rest => multilineLiteralBody ('\n' :: seen) rest
  | c :: rest =>
    if c = '\n' ∨ isPlain c then multilineLiteralBody (c :: seen) rest
    else .error (c :: rest)

/-- A string on one line, its opening quote next. -/
def lineString : Scanner String := do
  if ← Scanner.accept ['"'] then basicBody []
  else
    Scanner.expect ['\'']
    literalBody []

/-- A string, its opening quote next. A line end right behind the opening mark of
a string of several lines is left out. -/
def stringValue : Scanner String := do
  if ← Scanner.accept ['"', '"', '"'] then
    let _ ← newline
    multilineBody false []
  else if ← Scanner.accept ['\'', '\'', '\''] then
    let _ ← newline
    multilineLiteralBody []
  else lineString

/-! ## Words -/

/-- Digits of a base with single underscores between them; the result is without
the underscores. -/
def groupedDigits? (isDigit : Char → Bool) : List Char → Option (List Char)
  | [] => none
  | [c] => if isDigit c then some [c] else none
  | c :: '_' :: cs => if isDigit c then (groupedDigits? isDigit cs).map (c :: ·) else none
  | c :: cs => if isDigit c then (groupedDigits? isDigit cs).map (c :: ·) else none

/-- The sign in front of a number, and the rest. -/
def takeSign : List Char → Option Bool × List Char
  | '+' :: cs => (some false, cs)
  | '-' :: cs => (some true, cs)
  | cs => (none, cs)

/-- The digits of a decimal integer, which has no needless zero in front. -/
def decimalDigits? (cs : List Char) : Option (List Char) :=
  match groupedDigits? Char.isDigit cs with
  | some ['0'] => some ['0']
  | some ('0' :: _) => none
  | r => r

/-- The integer in the range of sixty-four signed bits. -/
def ranged? (n : Int) : Option Json :=
  if -(Int.pow 2 63) ≤ n ∧ n < Int.pow 2 63 then some (.int n) else none

/-- Is the character a digit of a base up to sixteen? -/
def isDigitOf (base : Nat) (c : Char) : Bool :=
  match Json.hexValue? c with
  | some d => decide (d < base)
  | none => false

/-- An integer in base sixteen, eight or two. -/
def basedInteger? (base : Nat) (cs : List Char) : Option Json := do
  let ds ← groupedDigits? (isDigitOf base) cs
  let n := ds.foldl (fun n d => n * base + (Json.hexValue? d).getD 0) 0
  ranged? n

/-- An integer. -/
def integer? : List Char → Option Json
  | '0' :: 'x' :: cs => basedInteger? 16 cs
  | '0' :: 'o' :: cs => basedInteger? 8 cs
  | '0' :: 'b' :: cs => basedInteger? 2 cs
  | cs => do
    let (sign, digits) := takeSign cs
    let n := Json.naturalOfDigits (← decimalDigits? digits)
    ranged? (if sign = some true then -(n : Int) else n)

/-- Is the letter the mark of an exponent? -/
def isExponentMark (c : Char) : Bool := c = 'e' || c = 'E'

/-- The exponent behind its mark. -/
def exponent? (cs : List Char) : Option Int := do
  let (sign, digits) := takeSign cs
  let n := Json.naturalOfDigits (← groupedDigits? Char.isDigit digits)
  return if sign = some true then -(n : Int) else n

/-- A number with a point, an exponent, or both, or one of the words `inf` and
`nan`. It may be too small for a double, and too small below zero, but not too
great. -/
def float? (cs : List Char) : Option Json := do
  let (sign, rest) := takeSign cs
  let negative := sign = some true
  if rest = "inf".toList then return .double (.infinite negative)
  if rest = "nan".toList then return .double .nan
  let mantissa := rest.takeWhile fun c => !isExponentMark c
  let whole := mantissa.takeWhile fun c => c ≠ '.'
  let wholeDigits ← decimalDigits? whole
  let fractionDigits ← match mantissa.drop whole.length with
    | [] => some []
    | _ :: cs => groupedDigits? Char.isDigit cs
  let exponent ← match rest.drop mantissa.length with
    | [] => if fractionDigits.isEmpty then none else some 0
    | _ :: cs => exponent? cs
  let x := Double.ofDecimal negative (Json.naturalOfDigits (wholeDigits ++ fractionDigits))
    (exponent - fractionDigits.length)
  if x = .infinite false then none else some (.double x)

/-- The field under which a date or time is kept. -/
def dateTimeField : String := "$__toml_private_datetime"

/-- A date or time. -/
def dateTime? (cs : List Char) : Option Json :=
  (DateTime.read cs).map fun t => .object [(dateTimeField, .string t)]

/-- The value of a word. -/
def scalar? (cs : List Char) : Option Json :=
  if cs = "true".toList then some (.bool true)
  else if cs = "false".toList then some (.bool false)
  else (dateTime? cs).or ((float? cs).or (integer? cs))

/-- A character of a word. -/
def isWordChar (c : Char) : Bool :=
  c.isAlphanum || c = '+' || c = '-' || c = '_' || c = '.' || c = ':'

/-- Can a time follow, parted by a blank? -/
def timeFollows : List Char → Bool
  | ' ' :: a :: b :: ':' :: _ => a.isDigit && b.isDigit
  | _ => false

/-- The value of the next word. The time behind a date may be parted from it by a
blank. -/
def word : Scanner Json := do
  let cs ← Scanner.takeWhile1 isWordChar
  let rest ← get
  let cs ← if (DateTime.date.run cs).isOk && timeFollows rest then do
      let _ ← Scanner.next
      pure (cs ++ ' ' :: (← Scanner.takeWhile1 isWordChar))
    else pure cs
  match scalar? cs with
  | some v => return v
  | none => Scanner.fail

/-! ## Keys and values -/

/-- A character of a key without quotes. -/
def isKeyChar (c : Char) : Bool := c.isAlphanum || c = '_' || c = '-'

/-- A single key. -/
def simpleKey : Scanner String := do
  match ← Scanner.peek? with
  | some '"' | some '\'' => lineString
  | _ => return String.ofList (← Scanner.takeWhile1 isKeyChar)

/-- How deep values can be nested, and how many parts a dotted key can have. -/
def greatestDepth : Nat := 79

/-- A key with dots, blanks around the dots ignored: the keys before the last one,
and the last one. -/
def dottedKey : (parts : Nat) → Scanner (List String × String)
  | 0 => Scanner.fail
  | parts + 1 => do
    blanks
    let k ← simpleKey
    blanks
    if ← Scanner.accept ['.'] then
      let (path, key) ← dottedKey parts
      return (k :: path, key)
    return ([], k)

/-- The object of pairs that do not contradict each other. -/
def inlineTable (ps : List Pair) : Scanner Json :=
  match ofPairs ps with
  | some j => return j
  | none => Scanner.fail

mutual

/-- A value. `depth` bounds its nesting, `steps` the steps taken. -/
def value : (steps depth : Nat) → Scanner Json
  | 0, _ => Scanner.fail
  | steps + 1, depth => do
    match ← Scanner.peek? with
    | some '"' | some '\'' => return .string (← stringValue)
    | some '[' =>
      match depth with
      | 0 => Scanner.fail
      | depth + 1 =>
        let _ ← Scanner.next
        return .array (← elements steps depth)
    | some '\x7b' =>
      match depth with
      | 0 => Scanner.fail
      | depth + 1 =>
        let _ ← Scanner.next
        blanks
        if ← Scanner.accept ['\x7d'] then return .object []
        inlineTable (← inlinePairs steps depth)
    | _ => word

/-- The elements of an array and its closing bracket. A comma may follow the last
element. -/
def elements : (steps depth : Nat) → Scanner (List Json)
  | 0, _ => Scanner.fail
  | steps + 1, depth => do
    gaps
    if ← Scanner.accept [']'] then return []
    let v ← value steps depth
    gaps
    if ← Scanner.accept [','] then return v :: (← elements steps depth)
    Scanner.expect [']']
    return [v]

/-- The pairs of an inline table and its closing brace. -/
def inlinePairs : (steps depth : Nat) → Scanner (List Pair)
  | 0, _ => Scanner.fail
  | steps + 1, depth => do
    let p ← pair steps depth
    blanks
    if ← Scanner.accept [','] then return p :: (← inlinePairs steps depth)
    Scanner.expect ['\x7d']
    return [p]

/-- A key, an equals sign and a value. -/
def pair : (steps depth : Nat) → Scanner Pair
  | 0, _ => Scanner.fail
  | steps + 1, depth => do
    let (path, key) ← dottedKey greatestDepth
    Scanner.expect ['=']
    blanks
    return ⟨path, key, ← value steps depth⟩

end

/-! ## Documents -/

/-- A header, if one comes next. -/
def header : Scanner (Option Header) := do
  if ← Scanner.accept ['[', '['] then
    let (path, key) ← dottedKey greatestDepth
    Scanner.expect [']', ']']
    return some (.element path key)
  if ← Scanner.accept ['['] then
    let (path, key) ← dottedKey greatestDepth
    Scanner.expect [']']
    return some (.table path key)
  return none

/-- The sections from the present one on: `current` is its header, and `pairs`
what has been read of it, the last pair first. -/
def sections : (lines : Nat) → (steps : Nat) → Header → List Pair → Scanner (List Section)
  | 0, _, _, _ => Scanner.fail
  | lines + 1, steps, current, pairs => do
    blanks
    match ← Scanner.peek? with
    | none => return [⟨current, pairs.reverse⟩]
    | some '\n' | some '\r' | some '#' =>
      lineEnd
      sections lines steps current pairs
    | some _ =>
      match ← header with
      | some h =>
        lineEnd
        return ⟨current, pairs.reverse⟩ :: (← sections lines steps h [])
      | none =>
        let p ← pair steps greatestDepth
        lineEnd
        sections lines steps current (p :: pairs)

/-- A byte order mark in front of a document has no meaning. -/
def dropMark : List Char → List Char
  | c :: cs => if c.toNat = 0xFEFF then cs else c :: cs
  | [] => []

/-- The value of a document. -/
def read (text : String) : Except Position Json :=
  let cs := dropMark text.toList
  match (sections (cs.length + 2) (2 * cs.length + 4) .root []).run cs with
  | .error place => .error place
  | .ok parts =>
    match ofSections parts with
    | some j => .ok j
    | none => .error (Position.after cs)

end AtomicCss.Toml
