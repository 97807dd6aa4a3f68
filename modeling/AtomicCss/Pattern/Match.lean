import AtomicCss.Alias.Rules
import AtomicCss.Pattern.Program
import AtomicCss.Pattern.Reader

/-!
# Matches of patterns

A compiled pattern is searched for in a text. A match keeps the text of each
group that took part in it; group zero is the match itself.

- `Pattern.compile`: the pattern of a text, or the reason why there is none.
- `Pattern.captures?`: the groups of the first match from the left.
- `PatternRule.ofPattern`: the rule that answers with a value computed from the
  groups.
-/

namespace AtomicCss

/-- The texts of the groups of a match. -/
structure Captures where
  groups : List (Option String)
  deriving DecidableEq, Repr

/-- The text of a group; a group that took no part in the match has none. -/
def Captures.get? (c : Captures) (i : Nat) : Option String := (c.groups[i]?).join

/-- A compiled pattern. -/
structure CompiledPattern where
  source : String
  program : Pattern.Program

namespace CompiledPattern

/-- Compile a pattern. -/
def compile (source : String) : Except String CompiledPattern := do
  let (e, groups) ← Pattern.Expr.read source
  return ⟨source, .ofExpr e groups⟩

/-- The part of a text between two places. -/
def between (text : Array Char) (first last : Option Nat) : Option String := do
  return String.ofList (text.extract (← first) (← last)).toList

/-- The groups of the first match in a text. -/
def captures? (p : CompiledPattern) (text : String) : Option Captures :=
  let cs := text.toList.toArray
  (p.program.search cs).map fun slots =>
    ⟨(List.range (p.program.slots / 2)).map fun i =>
      between cs (slots.getD (2 * i) none) (slots.getD (2 * i + 1) none)⟩

end CompiledPattern

/-- The rule of a pattern that answers with a value computed from a match. -/
def PatternRule.ofPattern {α : Type} (key pattern : String) (compute : Captures → α) :
    Except Error (PatternRule α) :=
  match CompiledPattern.compile pattern with
  | .ok p => .ok ⟨key, pattern, fun input => (p.captures? input).map compute⟩
  | .error reason => .error (.invalidPattern reason)

end AtomicCss
