import AtomicCss.Selector.Groups
import AtomicCss.Selector.Marker

/-!
# Selector chains

The selectors and conditions around a declaration form a chain from the outside
in. The chain of a rule is the normal form of the chain in which its declaration
stands.

- `normalize`: selectors without groups go; if no group of the innermost one
  holds a marker, a host marker is added as innermost selector; then every host
  marker is replaced by the default selector, and groups are joined by commas.
-/

namespace AtomicCss.Selector

/-- Is the innermost selector of a chain anchored? -/
def innermostAnchored (chain : List (List (List Char))) : Bool :=
  match chain.getLast? with
  | some groups => groups.any isAnchored
  | none => false

/-- The groups of every selector of the chain, anchored on the host. -/
def anchoredGroups (chain : List String) : List (List (List Char)) :=
  let fragments := (chain.map fun s => groupsOf s.toList).filter fun gs => !gs.isEmpty
  if innermostAnchored fragments then fragments else fragments ++ [[['&']]]

/-- Groups with the default selector filled in, as one selector. -/
def joinGroups (host : List Char) (groups : List (List Char)) : List Char :=
  [','].intercalate (groups.map (fillHost host))

/-- The normal form of a chain of selectors. -/
def normalize (chain : List String) (defaultSelector : String) : List String :=
  (anchoredGroups chain).map fun groups =>
    String.ofList (joinGroups defaultSelector.toList groups)

end AtomicCss.Selector
