import AtomicCss.Text.CharSet

/-!
# Expressions of patterns

A pattern describes texts by an expression over sets of characters. Expressions
are built in a simple form: sequences and choices lean to the right and hold no
sequence or choice again, and what is empty is left out.

- `Look`: conditions on a place in a text.
- `Expr`: expressions, with numbered groups.
- `Expr.sequence`, `Expr.choice`, `Expr.repeated`: building them.
- `Expr.onlyEmpty`, `Expr.leastLength?`, `Expr.startsAnchored`: what they match.
-/

namespace AtomicCss.Pattern

open AtomicCss.Text

/-- A condition on a place in a text. -/
inductive Look where
  | textStart
  | textEnd
  /-- The start of a line; `crlf` counts a carriage return as a line end too. -/
  | lineStart (crlf : Bool)
  | lineEnd (crlf : Bool)
  /-- A word begins or ends here. -/
  | wordEdge (letters : CharSet)
  | noWordEdge (letters : CharSet)
  | wordStart (letters : CharSet)
  | wordEnd (letters : CharSet)
  | wordStartHalf (letters : CharSet)
  | wordEndHalf (letters : CharSet)
  deriving DecidableEq, Repr

/-- Does the condition hold between the character before a place and the one
behind it? -/
def Look.holds (before after : Option Char) : Look → Bool
  | .textStart => before.isNone
  | .textEnd => after.isNone
  | .lineStart crlf =>
    match before with
    | none => true
    | some '\n' => true
    | some '\r' => crlf && after != some '\n'
    | some _ => false
  | .lineEnd crlf =>
    match after with
    | none => true
    | some '\r' => crlf
    | some '\n' => !(crlf && before == some '\r')
    | some _ => false
  | .wordEdge w => before.any w.contains != after.any w.contains
  | .noWordEdge w => before.any w.contains == after.any w.contains
  | .wordStart w => !before.any w.contains && after.any w.contains
  | .wordEnd w => before.any w.contains && !after.any w.contains
  | .wordStartHalf w => !before.any w.contains
  | .wordEndHalf w => !after.any w.contains

/-- An expression. -/
inductive Expr where
  /-- The empty text. -/
  | empty
  /-- One character of a set. -/
  | char (set : CharSet)
  | look (l : Look)
  /-- What the expression matches is kept under the number of the group. -/
  | group (number : Nat) (e : Expr)
  | seq (a b : Expr)
  /-- The first expression, or else the second. -/
  | alt (a b : Expr)
  /-- At least `least` and at most `most` repetitions, as many as possible if
  `greedy`, otherwise as few as possible. -/
  | rep (least : Nat) (most : Option Nat) (greedy : Bool) (e : Expr)
  deriving DecidableEq, Repr

namespace Expr

/-! ## What an expression matches -/

/-- Can the expression match nothing but the empty text? -/
def onlyEmpty : Expr → Bool
  | .empty => true
  | .char _ => false
  | .look _ => true
  | .group _ e => e.onlyEmpty
  | .seq a b => a.onlyEmpty && b.onlyEmpty
  | .alt a b => a.onlyEmpty && b.onlyEmpty
  | .rep _ most _ e => most = some 0 || e.onlyEmpty

/-- A length that no match of the expression falls below. There is none where a
set without characters has to be matched. -/
def leastLength? : Expr → Option Nat
  | .empty => some 0
  | .char set => if set = .empty then none else some 1
  | .look _ => some 0
  | .group _ e => e.leastLength?
  | .seq a b => do return (← a.leastLength?) + (← b.leastLength?)
  | .alt a b => do return min (← a.leastLength?) (← b.leastLength?)
  | .rep least _ _ e => e.leastLength?.map (least * ·)

/-- Is it known that every match consumes a character? -/
def consumes (e : Expr) : Bool := e.leastLength?.any (0 < ·)

/-- Does every match begin at the start of the text? -/
def startsAnchored : Expr → Bool
  | .look .textStart => true
  | .group _ e => e.startsAnchored
  | .seq a b => a.startsAnchored || (a.onlyEmpty && b.startsAnchored)
  | .alt a b => a.startsAnchored && b.startsAnchored
  | .rep least _ _ e => 0 < least && e.startsAnchored
  | _ => false

/-- Does every match end at the end of the text? -/
def endsAnchored : Expr → Bool
  | .look .textEnd => true
  | .group _ e => e.endsAnchored
  | .seq a b => b.endsAnchored || (b.onlyEmpty && a.endsAnchored)
  | .alt a b => a.endsAnchored && b.endsAnchored
  | .rep least _ _ e => 0 < least && e.endsAnchored
  | _ => false

/-! ## Sequences -/

/-- The members of a sequence. -/
def members : Expr → List Expr
  | .empty => []
  | .seq a b => a.members ++ b.members
  | e => [e]

/-- The sequence of its members. -/
def ofMembers : List Expr → Expr
  | [] => .empty
  | [e] => e
  | e :: es => .seq e (ofMembers es)

/-- The expressions of a list one after the other. -/
def sequence (es : List Expr) : Expr := ofMembers (es.flatMap members)

/-- The character that is all the expression matches. -/
def letter? : Expr → Option Char
  | .char set => set.only?
  | _ => none

/-- The text that is all the expression matches, unless that is the empty one. -/
def literal? : Expr → Option (List Char)
  | .char set => set.only?.map ([·])
  | .seq a b => do return (← a.literal?) ++ (← b.literal?)
  | _ => none

/-- Put a member before the parts of a sequence; letters that follow each other
are one part. -/
def addPart (e : Expr) : List Expr → List Expr
  | [] => [e]
  | p :: ps =>
    if e.letter?.isSome && p.literal?.isSome then .seq e p :: ps else e :: p :: ps

/-- The parts of a sequence: its members, except that its longest literals are
one part each. -/
def parts (e : Expr) : List Expr := e.members.foldr addPart []

/-! ## Choices -/

/-- The branches of a choice. -/
def branches : Expr → List Expr
  | .alt a b => a.branches ++ b.branches
  | e => [e]

/-- The choice between its branches. -/
def ofBranches : List Expr → Expr
  | [] => .char .empty
  | [e] => e
  | e :: es => .alt e (ofBranches es)

/-- The set of an expression that is one. -/
def set? : Expr → Option CharSet
  | .char set => some set
  | _ => none

/-- The union of sets. -/
def unionOf (sets : List CharSet) : CharSet := sets.foldl .union .empty

/-- The union of branches that are all letters, or all sets with more or less
than one character. -/
def joined? (es : List Expr) : Option Expr := do
  let sets ← es.mapM set?
  if es.all (·.letter?.isSome) || es.all (·.letter?.isNone) then
    return .char (unionOf sets)
  none

/-- The longest common beginning of two lists. -/
def common : List Expr → List Expr → List Expr
  | a :: as, b :: bs => if a = b then a :: common as bs else []
  | _, _ => []

/-- The parts with which all branches begin, each of which has at least two. -/
def commonParts (es : List Expr) : List Expr :=
  let lists := es.map parts
  if lists.any (·.length < 2) then []
  else match lists with
    | [] => []
    | ps :: rest => rest.foldl common ps

/-- A choice, with the parts with which all its branches begin put before it. Each
step takes a part from every branch, which bounds the steps. -/
def choiceIn : (steps : Nat) → List Expr → Expr
  | 0, es => ofBranches es
  | steps + 1, es =>
    let es := es.flatMap branches
    if es.length < 2 then ofBranches es
    else match joined? es with
      | some e => e
      | none =>
        let first := commonParts es
        if first.isEmpty then ofBranches es
        else
          let rests := es.map fun e => sequence (e.parts.drop first.length)
          sequence (first ++ [choiceIn steps rests])

/-- A choice between expressions, the first preferred. -/
def choice (es : List Expr) : Expr :=
  choiceIn (es.foldr (fun e n => e.members.length + n) 0 + 1) es

/-! ## Repetitions -/

/-- A repetition. What can match only the empty text need not be repeated more
than once. -/
def repeated (least : Nat) (most : Option Nat) (greedy : Bool) (e : Expr) : Expr :=
  let (least, most) :=
    if e.onlyEmpty then (min least 1, some (min (most.getD 1) 1)) else (least, most)
  if least = 0 ∧ most = some 0 then .empty
  else if least = 1 ∧ most = some 1 then e
  else .rep least most greedy e

end Expr

end AtomicCss.Pattern
