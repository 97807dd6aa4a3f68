import AtomicCss.Declaration
import AtomicCss.Table

/-!
# Merging what a style says

Of several assignments to one property under one chain the last one holds, at the
place where it stands; a removal takes away what was said before. A shortcut name
that nothing resolves is kept where it first occurs.

- `Slot`: a part of the result, addressed by its `Slot.Key`.
- `merge`: the slots of a list of extracted parts, in order.
-/

namespace AtomicCss

/-- What a slot is about. -/
inductive SlotKey where
  | unknown (name : String)
  | target (chain : List String) (property : String)
  deriving DecidableEq, Repr

/-- A part of a merged style. -/
inductive Slot where
  | unknown (name : String)
  | declaration (d : Declaration)
  deriving DecidableEq, Repr

/-- Enter one part: an unknown name keeps its place, an assignment takes away the
slot of its target and enters a new one at the end unless it is a removal. -/
def mergeStep (slots : Table SlotKey Slot) : Extracted → Table SlotKey Slot
  | .unknown name =>
    if Table.contains slots (.unknown name) then slots
    else Table.insert slots (.unknown name) (.unknown name)
  | .assignment a =>
    let key := SlotKey.target a.chain a.property
    let others := Table.erase slots key
    match a.values with
    | some values => Table.insert others key (.declaration ⟨a.chain, a.property, values⟩)
    | none => others

/-- The slots of a list of extracted parts. -/
def merge (parts : List Extracted) : List Slot :=
  (parts.foldl mergeStep ([] : Table SlotKey Slot)).values

/-- The declarations among slots. -/
def Slot.declaration? : Slot → Option Declaration
  | .declaration d => some d
  | .unknown _ => none

end AtomicCss
