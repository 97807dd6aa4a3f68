import AtomicCss.Json.Value
import AtomicCss.Selector.Marker

/-!
# Declarations

A declaration sets one property under one chain of selectors, to one value or to
several in the order of preference. It is what a rule of the stylesheet holds,
and its content decides the name of the rule.

- `Declaration.key`: the text that identifies a declaration.
- `Declaration.body`: its text between the braces of a block.
- `Declaration.isRenderable`: can its rule be written?
- `Assignment`, `Extracted`: what a style says before it is merged.
- `AtomicRule`: a declaration with its name.
-/

namespace AtomicCss

/-- A property with its values, under a chain of selectors from the outside in. -/
structure Declaration where
  chain : List String
  property : String
  values : List String
  deriving DecidableEq, Repr

namespace Declaration

/-- The identity of a declaration: the text of the array of its three parts. -/
def key (d : Declaration) : String :=
  (Json.array [.strings d.chain, .string d.property, .strings d.values]).compact

/-- The property repeated with each value. -/
def body (d : Declaration) : String :=
  ";".intercalate (d.values.map fun v => d.property ++ ":" ++ v)

/-- Only a declaration whose innermost selector holds a name marker can be
written, because the name of its rule stands there. -/
def isRenderable (d : Declaration) : Bool :=
  match d.chain.getLast? with
  | some selector => Selector.hasName selector.toList
  | none => false

end Declaration

/-- What a style says about one property under one chain: the values it takes,
or that whatever was said before is removed. -/
structure Assignment where
  chain : List String
  property : String
  values : Option (List String)
  deriving DecidableEq, Repr

/-- A part of a style in source order: an assignment, or a shortcut name that
nothing resolves. -/
inductive Extracted where
  | assignment (a : Assignment)
  | unknown (name : String)
  deriving DecidableEq, Repr

/-- A declaration with the name it was given. -/
structure AtomicRule where
  name : String
  declaration : Declaration
  deriving DecidableEq, Repr

end AtomicCss
