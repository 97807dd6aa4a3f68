import AtomicCss.Table

/-!
# Memos

A memo remembers the answer to each input. It is an arena: an input is mapped to
a cell once and for all, a later answer overwrites the cell, and the cell of a
forgotten input is emptied and never used again.

- `Memo.get?`: the remembered answer of an input.
- `Memo.set`: remember an answer.
- `Memo.evict`: forget the inputs that satisfy a condition.
- `Memo.size`: the number of remembered inputs.
-/

namespace AtomicCss

/-- Cells with answers, and the place of the cell of each remembered input. -/
structure Memo (α : Type) where
  index : Table String Nat := []
  cells : List (Option α) := []
  deriving DecidableEq, Repr

namespace Memo

variable {α : Type}

/-- The remembered answer of an input. -/
def get? (m : Memo α) (input : String) : Option α :=
  match Table.get? m.index input with
  | some i => (m.cells[i]?).join
  | none => none

/-- Remember an answer, in the cell of the input or in a new one. -/
def set (m : Memo α) (input : String) (answer : α) : Memo α :=
  match Table.get? m.index input with
  | some i => { m with cells := m.cells.set i (some answer) }
  | none =>
    { index := Table.insert m.index input m.cells.length
      cells := m.cells ++ [some answer] }

/-- Empty the cells at the given places. -/
def clear (cells : List (Option α)) (places : List Nat) : List (Option α) :=
  places.foldl (fun cells i => cells.set i none) cells

/-- Forget every input that satisfies `p`. -/
def evict (m : Memo α) (p : String → Bool) : Memo α :=
  { index := m.index.filter fun e => !p e.1
    cells := clear m.cells ((m.index.filter fun e => p e.1).map Prod.snd) }

/-- The number of remembered inputs. -/
def size (m : Memo α) : Nat := m.index.length

end Memo

end AtomicCss
