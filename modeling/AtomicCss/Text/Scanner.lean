/-!
# Reading a text from left to right

A `Scanner` consumes characters from the front of a text and fails at the place
where it cannot go on. Readers of documents are written with it.

- `Scanner.run`: read a whole text; a failure is a line and a column.
- `peek?`, `next`, `accept`, `expect`, `takeWhile`, `skipWhile`: single steps.
- `Scanner.opt`: a reader whose failure is undone.
-/

namespace AtomicCss.Text

/-- A reader of text: its state is the text that is left, its failure the text
that was left when it failed. -/
abbrev Scanner := StateT (List Char) (Except (List Char))

/-- A place in a text, counted from one. -/
structure Position where
  line : Nat
  column : Nat
  deriving DecidableEq, Repr

/-- The place behind the given characters. -/
def Position.after (cs : List Char) : Position :=
  cs.foldl (fun p c => if c = '\n' then ⟨p.line + 1, 1⟩ else ⟨p.line, p.column + 1⟩) ⟨1, 1⟩

/-- The place as words. -/
def Position.describe (p : Position) : String :=
  "line " ++ toString p.line ++ ", column " ++ toString p.column

namespace Scanner

variable {α : Type}

/-- Fail where the reader stands. -/
def fail : Scanner α := fun rest => .error rest

/-- The next character, which stays. -/
def peek? : Scanner (Option Char) := fun rest => .ok (rest.head?, rest)

/-- Do the next characters spell `word`? They stay. -/
def sees (word : List Char) : Scanner Bool := fun rest => .ok (word.isPrefixOf rest, rest)

/-- Consume the next character. -/
def next : Scanner Char
  | [] => .error []
  | c :: rest => .ok (c, rest)

/-- Consume `word` if it comes next. -/
def accept (word : List Char) : Scanner Bool := fun rest =>
  if word.isPrefixOf rest then .ok (true, rest.drop word.length) else .ok (false, rest)

/-- Consume `word`, which has to come next. -/
def expect (word : List Char) : Scanner Unit := fun rest =>
  if word.isPrefixOf rest then .ok ((), rest.drop word.length) else .error rest

/-- Consume the next character, which has to satisfy `p`. -/
def expectIf (p : Char → Bool) : Scanner Char
  | [] => .error []
  | c :: rest => if p c then .ok (c, rest) else .error (c :: rest)

/-- Consume characters while they satisfy `p`. -/
def takeWhile (p : Char → Bool) : Scanner (List Char) := fun rest =>
  .ok (rest.takeWhile p, rest.dropWhile p)

/-- Consume one or more characters that satisfy `p`. -/
def takeWhile1 (p : Char → Bool) : Scanner (List Char) := fun rest =>
  match rest.takeWhile p with
  | [] => .error rest
  | cs => .ok (cs, rest.dropWhile p)

/-- Pass over characters while they satisfy `p`. -/
def skipWhile (p : Char → Bool) : Scanner Unit := fun rest => .ok ((), rest.dropWhile p)

/-- The result of a reader, or none of its effect if it fails. -/
def opt (p : Scanner α) : Scanner (Option α) := fun rest =>
  match p rest with
  | .ok (a, rest') => .ok (some a, rest')
  | .error _ => .ok (none, rest)

/-- The number of characters that are left. -/
def remaining : Scanner Nat := fun rest => .ok (rest.length, rest)

/-- Fail unless the text is used up. -/
def finish : Scanner Unit
  | [] => .ok ((), [])
  | rest => .error rest

/-- Read the whole of a text. -/
def run (p : Scanner α) (text : List Char) : Except Position α :=
  match p text with
  | .ok (a, []) => .ok a
  | .ok (_, rest) => .error (Position.after (text.take (text.length - rest.length)))
  | .error rest => .error (Position.after (text.take (text.length - rest.length)))

end Scanner

end AtomicCss.Text
