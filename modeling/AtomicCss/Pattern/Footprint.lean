import AtomicCss.Pattern.ByteSequence
import AtomicCss.Pattern.Expr

/-!
# The footprint of a pattern

A pattern stands for an automaton over the bytes of UTF-8, which reads a text
forward to find where a match ends and backward to find where it starts. A pattern
whose automaton takes too much memory in one of the two directions is refused, so
that a short pattern such as `\w{1000}` cannot claim a large amount of it.

- `Footprint`: the memory that an automaton takes, and its `limit`.
- `Footprint.ofSet`, `ofExpr`, `ofPattern`: the states of a set, of an expression
  and of a whole pattern; none if there are too many.
- `Expr.fits`: does the automaton of a pattern keep to the limit?
-/

namespace AtomicCss.Pattern

open AtomicCss.Text

/-- The memory that an automaton takes. -/
structure Footprint where
  /-- The states, which are numbered from zero in the order in which they are made. -/
  states : Nat := 0
  /-- The bytes of the lists that states hold. -/
  lists : Nat := 0

/-- Counting the states of an automaton, until there are too many. -/
abbrev Measure := StateT Footprint Option

namespace Footprint

/-- The bytes of a state without its list. -/
def stateBytes : Nat := 32

/-- The bytes of an arc of a state: two bytes of text, and the next state. -/
def arcBytes : Nat := 8

/-- The bytes of a choice of a state that goes on without reading. -/
def choiceBytes : Nat := 4

/-- The greatest number of bytes that an automaton may take. -/
def limit : Nat := 10 * Nat.pow 2 20

/-- The bytes that an automaton takes. -/
def bytes (f : Footprint) : Nat := f.states * stateBytes + f.lists

/-- Go on unless the limit is exceeded. -/
def check (f : Footprint) : Option Footprint := if f.bytes ≤ limit then some f else none

/-- Make a state with a list of some bytes; the result is its number. -/
def state (bytes : Nat) : Measure Nat := fun f => do
  return (f.states, ← check ⟨f.states + 1, f.lists + bytes⟩)

/-- Add choices to a state. -/
def choices (count : Nat) : Measure Unit := fun f => do
  return ((), ← check ⟨f.states, f.lists + count * choiceBytes⟩)

/-! ## Sets -/

/-- States of a set are shared where they are equal. A table finds the state that
was made for a key; it has a fixed number of slots, and a key takes the place of
the one that was in its slot. -/
abbrev Shared (κ : Type) := Array (Option (κ × Nat))

/-- The slot of a key among `count` ones, by the bits of its numbers. -/
def slot (count : Nat) (key : List Nat) : Nat :=
  let mix : UInt64 := key.foldl (fun h n => (h ^^^ n.toUInt64) * 1099511628211) 14695981039346656037
  mix.toNat % count

/-- The state of a key; it is made if the table does not hold it. -/
def share (key : List Nat) (bytes : Nat) : StateT (Shared (List Nat)) Measure Nat := do
  let table ← get
  let i := slot table.size key
  match table.getD i none with
  | some (k, n) =>
    if k = key then return n
    let n ← state bytes
    set (table.setIfInBounds i (some (key, n)))
    return n
  | none =>
    let n ← state bytes
    set (table.setIfInBounds i (some (key, n)))
    return n

/-- Sequences by their first ranges: neighbours that begin alike are together. -/
def byFirst : List (List ByteRange) → List (ByteRange × List (List ByteRange))
  | [] => []
  | [] :: rest => byFirst rest
  | (r :: rs) :: rest =>
    match byFirst rest with
    | [] => [(r, [rs])]
    | (r', tails) :: groups =>
      if r = r' then (r, rs :: tails) :: groups else (r, [rs]) :: (r', tails) :: groups

/-- The state from which sequences of at most `length` ranges lead to the state
`last`, read forward. States with equal arcs are shared. -/
def forwardState (last : Nat) :
    (length : Nat) → List (List ByteRange) → StateT (Shared (List Nat)) Measure Nat
  | 0, _ => return last
  | length + 1, sequences => do
    if sequences.all List.isEmpty then return last
    let arcs ← (byFirst sequences).mapM fun (r, tails) => do
      return [r.1, r.2, ← forwardState last length tails]
    share arcs.flatten (arcs.length * arcBytes)

/-- The states through which a sequence leads to the state `last`, read backward;
the sequences of a set share the states of their first bytes. -/
def backwardStates (last : Nat) : List ByteRange → StateT (Shared (List Nat)) Measure Unit
  | [] => choices 1
  | r :: rs => do backwardStates (← share [last, r.1, r.2] 0) rs

/-- The states of a set of characters: those of a single character are its bytes,
and those of other ASCII sets a state for all ranges and one behind it. -/
def ofSet (backward : Bool) (s : CharSet) : Measure Unit := do
  match s.only? with
  | some c => (bytesOf c.toNat).forM fun _ => discard (state 0)
  | none =>
    if s.isAscii then
      let _ ← state 0
      let _ ← state (s.ranges.length * arcBytes)
    else if backward then
      let _ ← state 0
      let last ← state 0
      let _ ← ((byteSequences s).forM (backwardStates last)).run (Array.replicate 1000 none)
    else
      let last ← state 0
      let _ ← (forwardState last 4 (byteSequences s)).run (Array.replicate 10000 none)

/-! ## Literals -/

/-- The rests of byte strings behind their first bytes, by first byte. -/
def byByte (strings : List (List Nat)) : List (Nat × List (List Nat)) :=
  strings.foldl (fun groups s =>
    match s with
    | [] => groups
    | b :: bs =>
      if groups.any (·.1 = b) then
        groups.map fun g => if g.1 = b then (b, g.2 ++ [bs]) else g
      else groups ++ [(b, [bs])]) []

/-- Byte strings cut where an empty one stands. -/
def cutAtEnds : List (List Nat) → List (List (List Nat))
  | [] => [[]]
  | [] :: rest => [] :: cutAtEnds rest
  | s :: rest =>
    match cutAtEnds rest with
    | [] => [[s]]
    | chunk :: chunks => (s :: chunk) :: chunks

/-- Byte strings without empty ones at the start, except for one. -/
def dropEnds : List (List Nat) → List (List Nat)
  | [] :: [] :: rest => dropEnds ([] :: rest)
  | strings => strings

/-- The states of a tree of byte strings, at most `length` bytes long: from a node,
a state for the arcs between two ends of strings, and one to choose among those
states. -/
def ofTree : (length : Nat) → List (List Nat) → Measure Unit
  | 0, _ => return
  | length + 1, strings => do
    if strings.all List.isEmpty then return
    let chunks := cutAtEnds (dropEnds strings)
    chunks.forM fun chunk => do
      let arcs := byByte chunk
      arcs.forM fun arc => ofTree length arc.2
      match arcs.length with
      | 0 => return
      | 1 => discard (state 0)
      | n => discard (state (n * arcBytes))
    let full := chunks.filter fun chunk => !chunk.isEmpty
    discard (state ((full.length + (chunks.length - 1)) * choiceBytes))

/-- The bytes of the literal that an expression is. -/
def literalBytes? (backward : Bool) (e : Expr) : Option (List Nat) :=
  e.literal?.map fun cs =>
    let bytes := cs.flatMap fun c => bytesOf c.toNat
    if backward then bytes.reverse else bytes

/-! ## Expressions -/

/-- Go on behind an expression. If its last state is one that chooses, that adds a
choice to it. -/
def link (chooses : Bool) : Measure Unit := if chooses then choices 1 else return

/-- Further copies of something, each linked to the one before it. -/
def copiesBehind (body : Measure Bool) : Nat → Bool → Measure Bool
  | 0, chooses => return chooses
  | n + 1, chooses => do
    let next ← body
    link chooses
    copiesBehind body n next

/-- Copies of something one behind the other; a single state if there are none. -/
def copies (body : Measure Bool) : Nat → Measure Bool
  | 0 => do
    discard (state 0)
    return false
  | n + 1 => do copiesBehind body n (← body)

/-- Further copies of something, each of which may be left out. -/
def optionalCopies (body : Measure Bool) : Nat → Bool → Measure Bool
  | 0, chooses => return chooses
  | n + 1, chooses => do
    discard (state 0)
    let next ← body
    link chooses
    choices 2
    optionalCopies body n next

/-- A repetition of something. -/
def repetition (body : Measure Bool) (consumes : Bool) :
    (least : Nat) → (most : Option Nat) → Measure Bool
  | 0, some 1 => do
    discard (state 0)
    link (← body)
    discard (state 0)
    choices 2
    return false
  | 0, none => do
    if consumes then
      discard (state 0)
      link (← body)
      choices 1
      return true
    link (← body)
    discard (state 0)
    discard (state 0)
    discard (state 0)
    choices 4
    return false
  | 1, none => do
    link (← body)
    discard (state 0)
    choices 1
    return true
  | least + 1, none => do
    let chooses ← copies body least
    let last ← body
    discard (state 0)
    link chooses
    link last
    choices 1
    return true
  | least, some most => do
    let chooses ← copies body least
    if least = most then return chooses
    discard (state 0)
    link (← optionalCopies body (most - least) chooses)
    return false

/-- How an expression stands among others. -/
inductive Standing where
  /-- On its own, or as the first branch of a choice. -/
  | alone
  /-- As the second branch of a choice. -/
  | second
  /-- As a later branch of a choice. -/
  | later

/-- Join a branch to its choice. The choice is made when there are two branches. -/
def join : Standing → Measure Unit
  | .alone => return
  | .second => do
    discard (state 0)
    discard (state 0)
    choices 2
  | .later => choices 1

/-- The states of an expression. The result says whether its last state is one that
chooses how to go on. -/
def ofExpr (backward : Bool) : Standing → Expr → Measure Bool
  | standing, .empty => do
    discard (state 0)
    join standing
    return false
  | standing, .char set => do
    ofSet backward set
    join standing
    return false
  | standing, .look _ => do
    discard (state 0)
    join standing
    return false
  | standing, .group _ e => do
    if backward then
      let chooses ← ofExpr backward .alone e
      join standing
      return chooses
    discard (state 0)
    link (← ofExpr backward .alone e)
    discard (state 0)
    join standing
    return false
  | standing, .seq a b => do
    let chooses ←
      if backward then
        link (← ofExpr backward .alone b)
        ofExpr backward .alone a
      else
        link (← ofExpr backward .alone a)
        ofExpr backward .alone b
    join standing
    return chooses
  | .alone, .alt a b => do
    match (Expr.alt a b).branches.mapM (literalBytes? backward) with
    | some strings =>
      discard (state 0)
      ofTree ((strings.map List.length).sum + 1) strings
    | none =>
      link (← ofExpr backward .alone a)
      link (← ofExpr backward .second b)
    return false
  | standing, .alt a b => do
    link (← ofExpr backward .alone a)
    join standing
    ofExpr backward .later b
  | standing, .rep least most _ e => do
    let chooses ← repetition (ofExpr backward .alone e) e.consumes least most
    join standing
    return chooses

/-- The states of a pattern. A match may start at any place of the text unless the
pattern is anchored. -/
def ofPattern (backward : Bool) (e : Expr) : Measure Unit := do
  discard (state 0)
  if !(if backward then e.endsAnchored else e.startsAnchored) then
    discard (state 0)
    discard (state arcBytes)
    choices 2
  let chooses ← ofExpr backward .alone (if backward then e else .group 0 e)
  discard (state 0)
  link chooses

end Footprint

/-- Does the automaton of a pattern keep to the limit in both directions? -/
def Expr.fits (e : Expr) : Bool :=
  [false, true].all fun backward => ((Footprint.ofPattern backward e).run {}).isSome

end AtomicCss.Pattern
