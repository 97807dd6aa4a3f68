import AtomicCss.Text.Blank

/-!
# Selector groups

A selector may list several alternatives, its groups, parted by commas. A comma
inside quotes, parentheses or brackets does not part groups. Parentheses and
brackets are counted together, and a closing one without an opening one has no
effect.

- `Scan`: what has to be known of the text before a character.
- `pieces`: the text cut at the parting commas, commas left out.
- `groups`: the pieces trimmed, without the empty ones.
-/

namespace AtomicCss.Selector

/-- How many parentheses and brackets are open, and the quote that is open. -/
structure Scan where
  depth : Nat := 0
  quote : Option Char := none
  deriving DecidableEq, Repr

namespace Scan

/-- The state behind a character. -/
def step (s : Scan) (c : Char) : Scan :=
  match s.quote with
  | some q => if c = q then { s with quote := none } else s
  | none =>
    if c = '"' ∨ c = '\'' then { s with quote := some c }
    else if c = '(' ∨ c = '[' then { s with depth := s.depth + 1 }
    else if c = ')' ∨ c = ']' then { s with depth := s.depth - 1 }
    else s

/-- Outside of quotes and brackets. -/
def atTop (s : Scan) : Bool := s.quote.isNone && s.depth == 0

/-- The state behind a text. -/
def run (s : Scan) (cs : List Char) : Scan := cs.foldl step s

end Scan

/-- Put a character in front of the first piece. -/
def prepend (c : Char) : List (List Char) → List (List Char)
  | [] => [[c]]
  | p :: ps => (c :: p) :: ps

/-- The text cut at its parting commas, read from a state. There is one piece
more than there are parting commas. -/
def pieces (s : Scan) : List Char → List (List Char)
  | [] => [[]]
  | c :: cs =>
    if c = ',' ∧ s.atTop then [] :: pieces s cs else prepend c (pieces (s.step c) cs)

/-- The groups of a text: its pieces, trimmed, without the empty ones. -/
def groupsOf (cs : List Char) : List (List Char) :=
  ((pieces {} cs).map Text.trim).filter fun g => !g.isEmpty

/-- The groups of a selector. -/
def groups (selector : String) : List String :=
  (groupsOf selector.toList).map String.ofList

end AtomicCss.Selector
