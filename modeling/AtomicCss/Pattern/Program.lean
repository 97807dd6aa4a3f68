import AtomicCss.Pattern.Expr

/-!
# Programs of patterns

An expression is compiled to a program, whose steps are tried in order of
preference. A place in the text is visited at most once by each step, because a
second visit could only repeat the failure of the first; that makes the search
finite, and ends a repetition that consumes nothing.

- `Program.ofExpr`: the program of an expression.
- `Program.search`: the first match from the left, with the places of its groups.
-/

namespace AtomicCss.Pattern

open AtomicCss.Text

/-- A step of a program: what it demands, and where it goes on. -/
inductive Step where
  | char (set : CharSet) (next : Nat)
  | look (l : Look) (next : Nat)
  /-- Keep the present place in a slot. -/
  | keep (slot : Nat) (next : Nat)
  /-- Go on at the first place, or else at the second. -/
  | split (first second : Nat)
  | done
  deriving Repr

/-- Steps, and the step at which the program starts. -/
structure Program where
  steps : Array Step
  start : Nat
  slots : Nat

namespace Program

/-- Add a step; the result is its number. -/
def push (steps : Array Step) (s : Step) : Nat × Array Step := (steps.size, steps.push s)

/-- A choice between going on inside and going on outside, in the order of
preference. -/
def choice (greedy : Bool) (inside outside : Nat) : Step :=
  if greedy then .split inside outside else .split outside inside

/-- Compile something `n` times in a row; each time goes on where the next one
starts. -/
def times (body : Nat → Array Step → Nat × Array Step) :
    Nat → Nat → Array Step → Nat × Array Step
  | 0, next, steps => (next, steps)
  | n + 1, next, steps =>
    let (start, steps) := body next steps
    times body n start steps

/-- Compile up to `n` further repetitions in front of `next`, each of which may be
left out together with those behind it. -/
def upTo (greedy : Bool) (body : Nat → Array Step → Nat × Array Step) (out : Nat) :
    Nat → Nat → Array Step → Nat × Array Step
  | 0, next, steps => (next, steps)
  | n + 1, next, steps =>
    let (inside, steps) := body next steps
    let (start, steps) := push steps (choice greedy inside out)
    upTo greedy body out n start steps

/-- Compile one or more repetitions: behind each one there is a choice between
another one and the rest. -/
def oneOrMore (greedy : Bool) (body : Nat → Array Step → Nat × Array Step)
    (next : Nat) (steps : Array Step) : Nat × Array Step :=
  let (again, steps) := push steps .done
  let (inside, steps) := body again steps
  (inside, steps.setIfInBounds again (choice greedy inside next))

/-- Compile an expression in front of the step `next`. -/
def compile : Expr → Nat → Array Step → Nat × Array Step
  | .empty, next, steps => (next, steps)
  | .char set, next, steps => push steps (.char set next)
  | .look l, next, steps => push steps (.look l next)
  | .group number e, next, steps =>
    let (close, steps) := push steps (.keep (2 * number + 1) next)
    let (inside, steps) := compile e close steps
    push steps (.keep (2 * number) inside)
  | .seq a b, next, steps =>
    let (next, steps) := compile b next steps
    compile a next steps
  | .alt a b, next, steps =>
    let (second, steps) := compile b next steps
    let (first, steps) := compile a next steps
    push steps (.split first second)
  | .rep least (some most) greedy e, next, steps =>
    let (next, steps) := upTo greedy (compile e) next (most - least) next steps
    times (compile e) least next steps
  | .rep (least + 1) none greedy e, next, steps =>
    let (next, steps) := oneOrMore greedy (compile e) next steps
    times (compile e) least next steps
  | .rep 0 none greedy e, next, steps =>
    if !e.consumes then
      let (inside, steps) := oneOrMore greedy (compile e) next steps
      push steps (choice greedy inside next)
    else
      let (again, steps) := push steps .done
      let (inside, steps) := compile e again steps
      (again, steps.setIfInBounds again (choice greedy inside next))

/-- The program of an expression with the given number of groups. -/
def ofExpr (e : Expr) (groups : Nat) : Program :=
  let (start, steps) := compile (.group 0 e) 0 #[.done]
  ⟨steps, start, 2 * (groups + 1)⟩

/-- Places kept in slots. -/
abbrev Slots := Array (Option Nat)

/-- A set of numbers below some bound, as the bits of the numbers in an array. -/
structure Visited where
  words : Array Nat

namespace Visited

/-- How many bits of a number are used. -/
def width : Nat := 60

/-- No number below a bound is in the set. -/
def none (bound : Nat) : Visited := ⟨Array.replicate (bound / width + 1) 0⟩

/-- Is a number in the set? -/
def has (v : Visited) (n : Nat) : Bool := (v.words.getD (n / width) 0).testBit (n % width)

/-- The set with one more number. -/
def add (v : Visited) (n : Nat) : Visited :=
  ⟨v.words.modify (n / width) fun word => word ||| 1 <<< (n % width)⟩

end Visited

/-- Follow the program from a step at a place. The fuel bounds the nesting of calls,
each of which is the first visit of its step at its place. -/
def follow (p : Program) (text : Array Char) :
    (fuel : Nat) → (step place : Nat) → Slots → Visited → Option Slots × Visited
  | 0, _, _, _, visited => (none, visited)
  | fuel + 1, step, place, slots, visited =>
    let entry := step * (text.size + 1) + place
    if visited.has entry then (none, visited)
    else
      let visited := visited.add entry
      match p.steps[step]? with
      | none => (none, visited)
      | some .done => (some slots, visited)
      | some (.char set next) =>
        match text[place]? with
        | none => (none, visited)
        | some c =>
          if set.contains c then p.follow text fuel next (place + 1) slots visited
          else (none, visited)
      | some (.look l next) =>
        let before := if place = 0 then none else text[place - 1]?
        if l.holds before text[place]? then p.follow text fuel next place slots visited
        else (none, visited)
      | some (.keep slot next) =>
        p.follow text fuel next place (slots.setIfInBounds slot (some place)) visited
      | some (.split first second) =>
        match p.follow text fuel first place slots visited with
        | (some slots, visited) => (some slots, visited)
        | (none, visited) => p.follow text fuel second place slots visited

/-- Search from each place on, from the left, `left` places from `place` on. -/
def searchFrom (p : Program) (text : Array Char) (fuel : Nat) :
    (left place : Nat) → Visited → Option Slots
  | 0, _, _ => none
  | left + 1, place, visited =>
    match p.follow text fuel p.start place (Array.replicate p.slots none) visited with
    | (some slots, _) => some slots
    | (none, visited) => p.searchFrom text fuel left (place + 1) visited

/-- The slots of the first match from the left. -/
def search (p : Program) (text : Array Char) : Option Slots :=
  let entries := p.steps.size * (text.size + 1)
  p.searchFrom text (entries + 1) (text.size + 1) 0 (.none entries)

end Program

end AtomicCss.Pattern
