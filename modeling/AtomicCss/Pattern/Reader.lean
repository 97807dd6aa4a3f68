import AtomicCss.Pattern.Footprint
import AtomicCss.Text.Blank
import AtomicCss.Text.CaseFold
import AtomicCss.Text.Word

/-!
# Reading patterns

The text of a pattern is read into an expression. Letters stand for themselves;
`.`, classes in brackets, escapes such as `\d` and `\w`, groups, alternatives,
anchors and repetitions have their usual meaning. There are no references to
groups and no look-around. Flags in a group, such as `(?i)`, hold up to the end
of the group around them. How deep parts stand in each other is counted on the way,
since a pattern that is nested too deep is refused.

- `Flags`: what the flags say.
- `Reader`: the state of reading: the text that is left, the groups so far.
- `Part`: an expression and how deep its parts are nested.
- `Expr.read`: the expression of a pattern with the number of its groups, or the
  reason why it does not compile.
-/

namespace AtomicCss.Pattern

open AtomicCss.Text

/-- The flags that hold at a place of a pattern. -/
structure Flags where
  /-- `i`: letters stand for all their case variants. -/
  caseless : Bool := false
  /-- `m`: anchors hold at the ends of lines. -/
  lines : Bool := false
  /-- `s`: a dot stands for a line end too. -/
  dotAll : Bool := false
  /-- `U`: repetitions are as short as possible unless marked. -/
  swapGreed : Bool := false
  /-- `u`: classes hold characters of all scripts. -/
  unicode : Bool := true
  /-- `R`: a carriage return ends a line. -/
  crlf : Bool := false
  /-- `x`: blanks and comments between the parts of a pattern have no meaning. -/
  verbose : Bool := false

/-- The state of reading. -/
structure Reading where
  rest : List Char
  flags : Flags := {}
  groups : Nat := 0
  names : List String := []

/-- A reader of patterns; its failure is a reason. -/
abbrev Reader := StateT Reading (Except String)

namespace Reader

/-! ## Single characters -/

/-- The next character, which stays. -/
def peek? : Reader (Option Char) := do return (← get).rest.head?

/-- Do the next characters spell `word`? -/
def sees (word : String) : Reader Bool := do return word.toList.isPrefixOf (← get).rest

/-- Pass over `n` characters. -/
def skip (n : Nat) : Reader Unit := modify fun r => { r with rest := r.rest.drop n }

/-- Consume the next character. -/
def next (reason : String) : Reader Char := do
  match (← get).rest with
  | [] => throw reason
  | c :: rest => modify fun r => { r with rest := rest }; return c

/-- Consume `word` if it comes next. -/
def accept (word : String) : Reader Bool := do
  if ← sees word then skip word.length; return true
  return false

/-- The text behind blanks and comments; a comment runs from a number sign to the
end of its line. -/
def dropComments (inComment : Bool) : List Char → List Char
  | [] => []
  | c :: cs =>
    if inComment then dropComments (c ≠ '\n') cs
    else if isBlank c then dropComments false cs
    else if c = '#' then dropComments true cs
    else c :: cs

/-- Pass over blanks and comments where they have no meaning. -/
def skipComments : Reader Unit :=
  modify fun r => if r.flags.verbose then { r with rest := dropComments false r.rest } else r

/-! ## Sets of characters -/

/-- The word characters that the flags select. -/
def wordSet (f : Flags) : CharSet :=
  if f.unicode then wordChars else .ofRanges [('0', '9'), ('A', 'Z'), ('_', '_'), ('a', 'z')]

/-- The decimal digits that the flags select. -/
def digitSet (f : Flags) : CharSet := if f.unicode then decimalDigits else .range '0' '9'

/-- The blanks that the flags select. -/
def blankSet (f : Flags) : CharSet :=
  if f.unicode then blankChars else .ofRanges [('\t', '\r'), (' ', ' ')]

/-- The complement of a set, which the flags must allow. -/
def complement (s : CharSet) : Reader CharSet := do
  if (← get).flags.unicode then return s.compl
  throw "pattern can match invalid text"

/-- A set with the case variants that the flags ask for. -/
def withCase (s : CharSet) : Reader CharSet := do
  let f := (← get).flags
  if !f.caseless then return s
  return if f.unicode then s.caseless else s.caselessAscii

/-- The named ASCII classes. -/
def asciiClass? (name : String) : Option (List (Char × Char)) :=
  match name with
  | "alnum" => some [('0', '9'), ('A', 'Z'), ('a', 'z')]
  | "alpha" => some [('A', 'Z'), ('a', 'z')]
  | "ascii" => some [(Char.ofNat 0, Char.ofNat 0x7F)]
  | "blank" => some [('\t', '\t'), (' ', ' ')]
  | "cntrl" => some [(Char.ofNat 0, Char.ofNat 0x1F), (Char.ofNat 0x7F, Char.ofNat 0x7F)]
  | "digit" => some [('0', '9')]
  | "graph" => some [('!', '~')]
  | "lower" => some [('a', 'z')]
  | "print" => some [(' ', '~')]
  | "punct" => some [('!', '/'), (':', '@'), ('[', Char.ofNat 0x60), ('\x7b', '~')]
  | "space" => some [('\t', '\r'), (' ', ' ')]
  | "upper" => some [('A', 'Z')]
  | "word" => some [('0', '9'), ('A', 'Z'), ('_', '_'), ('a', 'z')]
  | "xdigit" => some [('0', '9'), ('A', 'F'), ('a', 'f')]
  | _ => none

/-- A named ASCII class such as `[:alpha:]`, if one comes next. -/
def asciiClass : Reader (Option CharSet) := do
  let r ← get
  match r.rest with
  | '[' :: ':' :: rest =>
    let (negated, rest) := match rest with
      | '^' :: rest => (true, rest)
      | rest => (false, rest)
    let name := rest.takeWhile fun c => c ≠ ':'
    match rest.drop name.length, asciiClass? (String.ofList name) with
    | ':' :: ']' :: rest, some ranges =>
      set { r with rest := rest }
      let s ← withCase (.ofRanges ranges)
      if negated then return some (← complement s) else return some s
    | _, _ => return none
  | _ => return none

/-! ## Escapes -/

/-- What an escape stands for. -/
inductive Escape where
  | char (c : Char)
  | set (s : CharSet)
  | look (l : Look)

/-- Is the character a hexadecimal digit? -/
def isHexDigit (c : Char) : Bool :=
  c.isDigit || ('a' ≤ c && c ≤ 'f') || ('A' ≤ c && c ≤ 'F')

/-- The value of a hexadecimal digit. -/
def hexDigitValue (c : Char) : Nat :=
  if c.isDigit then c.toNat - '0'.toNat else (c.toNat ||| 0x20) - 'a'.toNat + 10

/-- The character of a code in hexadecimal digits. -/
def codeChar (digits : List Char) : Reader Char := do
  let value := digits.foldl (fun n d => n * 16 + hexDigitValue d) 0
  if digits.isEmpty then throw "hexadecimal literal is empty"
  if (0xD800 ≤ value && value ≤ 0xDFFF) || 0x10FFFF < value then
    throw "hexadecimal literal is not a character"
  return Char.ofNat value

/-- The next hexadecimal digit. -/
def hexDigit : Reader Char := do
  let c ← next "hexadecimal literal is not closed"
  if !isHexDigit c then throw "invalid hexadecimal digit"
  skipComments
  return c

/-- Hexadecimal digits and the closing brace behind them. -/
def hexDigits : (steps : Nat) → Reader (List Char)
  | 0 => throw "hexadecimal literal is not closed"
  | steps + 1 => do
    if ← accept "\x7d" then return []
    let c ← hexDigit
    return c :: (← hexDigits steps)

/-- The rest of an escape by code: `width` digits, or digits in braces. Two digits
without braces are a byte, which has to be a character of its own. -/
def codeEscape (width : Nat) : Reader Escape := do
  skipComments
  if ← accept "\x7b" then
    skipComments
    return .char (← codeChar (← hexDigits ((← get).rest.length + 1)))
  let c ← codeChar (← (List.range width).mapM fun _ => hexDigit)
  if width = 2 && !(← get).flags.unicode && 0x80 ≤ c.toNat then
    throw "pattern can match invalid text"
  return .char c

/-- The words that name an edge of a word. -/
def wordEdge? (letters : CharSet) (name : String) : Option Look :=
  match name with
  | "start" => some (.wordStart letters)
  | "end" => some (.wordEnd letters)
  | "start-half" => some (.wordStartHalf letters)
  | "end-half" => some (.wordEndHalf letters)
  | _ => none

/-- Can the character stand in the name of an edge of a word? -/
def isEdgeChar (c : Char) : Bool := c.isAlpha || c = '-'

/-- The name of an edge of a word. -/
def edgeName : (steps : Nat) → Reader (List Char)
  | 0 => return []
  | steps + 1 => do
    match ← peek? with
    | some c =>
      if !isEdgeChar c then return []
      skip 1
      skipComments
      return c :: (← edgeName steps)
    | none => return []

/-- The rest of an escape for the edge of a word, which may be named in braces.
Braces that do not begin with a letter belong to a repetition. -/
def edgeEscape (letters : CharSet) : Reader Escape := do
  let before ← get
  if !(← accept "\x7b") then return .look (.wordEdge letters)
  skipComments
  if !(← peek?).any isEdgeChar then
    set before
    return .look (.wordEdge letters)
  let name ← edgeName before.rest.length
  if !(← accept "\x7d") then throw "word boundary is not closed"
  match wordEdge? letters (String.ofList name) with
  | some l => return .look l
  | none => throw "unknown word boundary"

/-- The rest of an escape behind its backslash. -/
def escape : Reader Escape := do
  let c ← next "incomplete escape sequence"
  let f := (← get).flags
  match c with
  | 'd' => return .set (digitSet f)
  | 'D' => return .set (← complement (digitSet f))
  | 's' => return .set (blankSet f)
  | 'S' => return .set (← complement (blankSet f))
  | 'w' => return .set (wordSet f)
  | 'W' => return .set (← complement (wordSet f))
  | 'x' => codeEscape 2
  | 'u' => codeEscape 4
  | 'U' => codeEscape 8
  | 'a' => return .char (Char.ofNat 0x07)
  | 'f' => return .char (Char.ofNat 0x0C)
  | 't' => return .char '\t'
  | 'n' => return .char '\n'
  | 'r' => return .char '\r'
  | 'v' => return .char (Char.ofNat 0x0B)
  | 'A' => return .look .textStart
  | 'z' => return .look .textEnd
  | 'b' => edgeEscape (wordSet f)
  | 'B' => return .look (.noWordEdge (wordSet f))
  | '<' => return .look (.wordStart (wordSet f))
  | '>' => return .look (.wordEnd (wordSet f))
  | c =>
    if c.toNat < 0x80 && !c.isAlphanum then return .char c
    throw "unrecognized escape sequence"

/-! ## Classes -/

/-- An operation between two parts of a class. -/
inductive SetOperation where
  | inter
  | diff
  | symmetricDiff

/-- The operation of two sets. -/
def SetOperation.apply : SetOperation → CharSet → CharSet → CharSet
  | .inter, a, b => .inter a b
  | .diff, a, b => .diff a b
  | .symmetricDiff, a, b => .diff (.union a b) (.inter a b)

/-- The operation that comes next, if one does. -/
def setOperation : Reader (Option SetOperation) := do
  if ← accept "&&" then return some .inter
  if ← accept "--" then return some .diff
  if ← accept "~~" then return some .symmetricDiff
  return none

/-- A single member of a class: a character, or the set of an escape. -/
def classMember : Reader Escape := do
  let c ← next "unclosed character class"
  let member ← if c = '\\' then escape else pure (.char c)
  match member with
  | .look _ => throw "invalid escape sequence in character class"
  | .char c =>
    if !(← get).flags.unicode && 0x80 ≤ c.toNat then throw "character is not allowed here"
    return .char c
  | .set s => return .set s

/-- The character behind the next one, where blanks and the sign of a comment have
no meaning. -/
def peekBehind? : Reader (Option Char) := do
  let r ← get
  let rest := r.rest.drop 1
  if !r.flags.verbose then return rest.head?
  let behind := match rest.dropWhile isBlank with
    | '#' :: rest => rest.dropWhile isBlank
    | rest => rest
  return behind.head? <|> rest.head?

/-- Is the next character the hyphen of a range? One in front of a closing bracket
or of another hyphen is not. -/
def seesRange : Reader Bool := do
  let behind ← peekBehind?
  return (← peek?) = some '-' && behind ≠ some ']' && behind ≠ some '-'

/-- A member or a range of members. -/
def classRange : Reader CharSet := do
  let first ← classMember
  skipComments
  if !(← seesRange) then
    match first with
    | .char c => return .single c
    | .set s => return s
    | .look _ => throw "invalid escape sequence in character class"
  skip 1
  skipComments
  match first, ← classMember with
  | .char a, .char b =>
    if a ≤ b then return .range a b
    throw "invalid character class range"
  | _, _ => throw "invalid range boundary"

/-- The members of a class: their union, how many there are, and how deep the
deepest of them is nested. -/
structure Members where
  set : CharSet := .empty
  count : Nat := 0
  depth : Nat := 0

/-- The members with one more. -/
def Members.add (m : Members) (s : CharSet) (depth : Nat) : Members :=
  ⟨m.set.union s, m.count + 1, max m.depth depth⟩

/-- How deep the members are nested as a whole. -/
def Members.wholeDepth (m : Members) : Nat := if m.count < 2 then m.depth else m.depth + 1

/-- Hyphens at the start of a class, which are members. -/
def leadingHyphens : (steps : Nat) → Members → Reader Members
  | 0, m => return m
  | steps + 1, m => do
    if !(← accept "-") then return m
    skipComments
    leadingHyphens steps (m.add (.single '-') 0)

/-- The first part of a class with the operation behind it. -/
structure LeftPart where
  operation : SetOperation
  set : CharSet
  depth : Nat

/-- What stands in a class up to here, with its depth. -/
def joinParts (left : Option LeftPart) (m : Members) : Reader (CharSet × Nat) := do
  match left with
  | none => return (m.set, m.wholeDepth)
  | some l =>
    let s := l.operation.apply (← withCase l.set) (← withCase m.set)
    return (s, max l.depth m.wholeDepth + 1)

mutual

/-- A class behind its opening bracket, and how deep it is nested. -/
def classBody : (steps : Nat) → Reader (CharSet × Nat)
  | 0 => throw "unclosed character class"
  | steps + 1 => do
    skipComments
    let negated ← accept "^"
    skipComments
    let m ← leadingHyphens (← get).rest.length {}
    let m ← if m.count = 0 && (← accept "]") then pure (m.add (.single ']') 0) else pure m
    let (s, depth) ← classRest steps none m
    let s ← withCase s
    let s ← if negated then complement s else pure s
    return (s, depth + 1)

/-- The rest of a class: `left` is what stands before the last operation, `m` holds
the members since. -/
def classRest : (steps : Nat) → Option LeftPart → Members → Reader (CharSet × Nat)
  | 0, _, _ => throw "unclosed character class"
  | steps + 1, left, m => do
    skipComments
    if (← peek?).isNone then throw "unclosed character class"
    match ← asciiClass with
    | some s => classRest steps left (m.add s 0)
    | none =>
      if ← accept "[" then
        let (s, depth) ← classBody steps
        classRest steps left (m.add s depth)
      else if ← accept "]" then joinParts left m
      else match ← setOperation with
        | some operation =>
          let (s, depth) ← joinParts left m
          classRest steps (some ⟨operation, s, depth⟩) {}
        | none =>
          let s ← classRange
          classRest steps left (m.add s 0)

end

/-! ## Repetitions -/

/-- The greatest count of a repetition. -/
def greatestCount : Nat := Nat.pow 2 32 - 1

/-- Pass over blanks, which have no meaning around a count. -/
def skipBlanks : Reader Unit := modify fun r => { r with rest := r.rest.dropWhile isBlank }

/-- Decimal digits. -/
def decimals : (steps : Nat) → Reader (List Char)
  | 0 => return []
  | steps + 1 => do
    match ← peek? with
    | some c =>
      if !c.isDigit then return []
      skip 1
      skipComments
      return c :: (← decimals steps)
    | none => return []

/-- A count in a repetition, blanks around it ignored. -/
def count : Reader (Option Nat) := do
  skipBlanks
  let ds ← decimals (← get).rest.length
  skipBlanks
  skipComments
  if ds.isEmpty then return none
  let n := ds.foldl (fun n d => n * 10 + (d.toNat - '0'.toNat)) 0
  if greatestCount < n then throw "repetition count is too large"
  return some n

/-- The counts of a repetition behind its opening brace. -/
def counts : Reader (Nat × Option Nat) := do
  skipComments
  match ← count with
  | none => throw "repetition quantifier expects a valid decimal"
  | some least =>
    if ← accept "," then
      skipComments
      if ← accept "\x7d" then return (least, none)
      match ← count with
      | none => throw "repetition quantifier expects a valid decimal"
      | some most =>
        if !(← accept "\x7d") then throw "unclosed counted repetition"
        if most < least then throw "invalid repetition count range"
        return (least, some most)
    if !(← accept "\x7d") then throw "unclosed counted repetition"
    return (least, some least)

/-- The counts of the repetition sign that comes next, if one does. -/
def repetition : Reader (Option (Nat × Option Nat)) := do
  if ← accept "*" then return some (0, none)
  if ← accept "+" then return some (1, none)
  if ← accept "?" then return some (0, some 1)
  if ← accept "\x7b" then
    let c ← counts
    skipComments
    return some c
  return none

/-! ## Flags and groups -/

/-- The flags with one of them set or cleared. -/
def setFlag (f : Flags) (c : Char) (value : Bool) : Option Flags :=
  match c with
  | 'i' => some { f with caseless := value }
  | 'm' => some { f with lines := value }
  | 's' => some { f with dotAll := value }
  | 'U' => some { f with swapGreed := value }
  | 'u' => some { f with unicode := value }
  | 'R' => some { f with crlf := value }
  | 'x' => some { f with verbose := value }
  | _ => none

/-- Flags up to a colon or a closing parenthesis, each at most once; those behind
a hyphen are cleared. -/
def flagList (f : Flags) (seen : List Char) (value : Bool) : List Char → Except String Flags
  | [] => if seen.head? = some '-' then .error "dangling flag negation operator" else .ok f
  | '-' :: cs =>
    if value then flagList f ('-' :: seen) false cs
    else .error "flag negation operator repeated"
  | c :: cs =>
    if c ∈ seen then .error "duplicate flag"
    else match setFlag f c value with
      | some f => flagList f (c :: seen) value cs
      | none => .error "unrecognized flag"

/-- Can the character stand in the name of a group? -/
def isNameChar (first : Bool) (c : Char) : Bool :=
  c = '_' || (wordChars.contains c && !(first && decimalDigits.contains c))
    || (!first && (c = '.' || c = '[' || c = ']'))

/-- The name of a group up to its closing bracket. -/
def groupName : Reader Unit := do
  let name := (← get).rest.takeWhile fun c => c ≠ '>'
  skip name.length
  if !(← accept ">") then throw "unclosed capture group name"
  match name with
  | [] => throw "empty capture group name"
  | c :: cs =>
    if !(isNameChar true c && cs.all (isNameChar false)) then
      throw "invalid capture group character"
  let name := String.ofList name
  if name ∈ (← get).names then throw "duplicate capture group name"
  modify fun r => { r with names := name :: r.names }

/-- What stands behind the opening parenthesis of a group. -/
inductive Opening where
  /-- A group that is kept, under its number. -/
  | kept (number : Nat)
  /-- A group that is not kept, with flags for its inside. -/
  | plain (flags : Flags)
  /-- Flags for what follows. -/
  | flags (flags : Flags)

/-- The number of the next group. -/
def nextGroup : Reader Opening := do
  modify fun r => { r with groups := r.groups + 1 }
  return .kept (← get).groups

/-- Read what stands behind an opening parenthesis. -/
def opening : Reader Opening := do
  skipComments
  for word in ["?=", "?!", "?<=", "?<!"] do
    if ← sees word then throw "look-around is not supported"
  if ← accept "?P<" then groupName; return ← nextGroup
  if ← accept "?<" then groupName; return ← nextGroup
  if !(← accept "?") then return ← nextGroup
  let r ← get
  let letters := r.rest.takeWhile fun c => c ≠ ':' && c ≠ ')'
  skip letters.length
  let f ← flagList r.flags [] true letters
  if ← accept ":" then return .plain f
  if ← accept ")" then
    if letters.isEmpty then throw "missing expression"
    return .flags f
  throw "unclosed group"

/-! ## Expressions -/

/-- An expression, and how deep its parts are nested. -/
structure Part where
  expr : Expr
  depth : Nat := 0

/-- How deep some parts are nested as a whole. -/
def Part.wholeDepth (parts : List Part) : Nat :=
  let deepest := (parts.map Part.depth).foldl max 0
  if parts.length < 2 then deepest else deepest + 1

/-- Parts one after the other. -/
def Part.sequence (parts : List Part) : Part :=
  ⟨.sequence (parts.map Part.expr), Part.wholeDepth parts⟩

/-- A choice between parts. -/
def Part.choice (parts : List Part) : Part :=
  ⟨.choice (parts.map Part.expr), Part.wholeDepth parts⟩

/-- Characters other than line ends, or all of them. -/
def dot : Reader Expr := do
  let f := (← get).flags
  if !f.unicode then throw "pattern can match invalid text"
  if f.dotAll then return .char .all
  if f.crlf then return .char (CharSet.ofRanges [('\n', '\n'), ('\r', '\r')]).compl
  return .char (CharSet.single '\n').compl

/-- A single character of a pattern that is neither a repetition sign nor a
bracket. -/
def single : Reader Expr := do
  let c ← next "unexpected end of pattern"
  let f := (← get).flags
  match c with
  | '.' => dot
  | '^' => return .look (if f.lines then .lineStart f.crlf else .textStart)
  | '$' => return .look (if f.lines then .lineEnd f.crlf else .textEnd)
  | '\\' =>
    match ← escape with
    | .char c => return .char (← withCase (.single c))
    | .set s => return .char s
    | .look l => return .look l
  | c => return .char (← withCase (.single c))

/-- The closing parenthesis of a group, behind which the flags outside hold. -/
def close (outside : Flags) : Reader Unit := do
  if !(← accept ")") then throw "unclosed group"
  modify fun r => { r with flags := outside }

mutual

/-- Alternatives up to a closing parenthesis or the end. -/
def alternatives : (steps : Nat) → Reader (List Part)
  | 0 => throw "pattern is too long"
  | steps + 1 => do
    let first ← parts steps []
    if ← accept "|" then return first :: (← alternatives steps)
    return [first]

/-- Parts one after the other; `seen` holds those read so far, the last one first.
Flags count as an empty part, which cannot be repeated. -/
def parts : (steps : Nat) → List (Part × Bool) → Reader Part
  | 0, _ => throw "pattern is too long"
  | steps + 1, seen => do
    skipComments
    match ← peek? with
    | none | some '|' | some ')' => return .sequence (seen.reverse.map Prod.fst)
    | some '(' =>
      skip 1
      let p ← group steps
      parts steps (p :: seen)
    | some '[' =>
      skip 1
      let (s, depth) ← classBody (2 * (← get).rest.length + 4)
      parts steps ((⟨.char s, depth⟩, true) :: seen)
    | some _ =>
      match ← repetition with
      | some (least, most) =>
        match seen with
        | (p, true) :: seen =>
          let lazy ← accept "?"
          let greedy := lazy == (← get).flags.swapGreed
          parts steps ((⟨.repeated least most greedy p.expr, p.depth + 1⟩, true) :: seen)
        | _ => throw "repetition operator missing expression"
      | none =>
        let e ← single
        parts steps ((⟨e, 0⟩, true) :: seen)

/-- A group behind its opening parenthesis, and whether it can be repeated. -/
def group : (steps : Nat) → Reader (Part × Bool)
  | 0 => throw "pattern is too long"
  | steps + 1 => do
    let outside := (← get).flags
    match ← opening with
    | .flags f =>
      modify fun r => { r with flags := f }
      return (⟨.empty, 0⟩, false)
    | .plain f =>
      modify fun r => { r with flags := f }
      let p := Part.choice (← alternatives steps)
      close outside
      return (⟨p.expr, p.depth + 1⟩, true)
    | .kept number =>
      let p := Part.choice (← alternatives steps)
      close outside
      return (⟨.group number p.expr, p.depth + 1⟩, true)

end

end Reader

/-- How deep the parts of a pattern can be nested. -/
def greatestDepth : Nat := 250

/-- The expression of a pattern and the number of its groups. -/
def Expr.read (pattern : String) : Except String (Expr × Nat) := do
  let cs := pattern.toList
  let (parts, r) ← (Reader.alternatives (2 * cs.length + 4)).run { rest := cs }
  if !r.rest.isEmpty then throw "unopened group"
  let whole := Reader.Part.choice parts
  if greatestDepth < whole.depth then throw "pattern is nested too deep"
  if !whole.expr.fits then throw "pattern is too large"
  return (whole.expr, r.groups)

end AtomicCss.Pattern
