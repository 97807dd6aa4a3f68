/-!
# Markers in selectors

A selector anchors a rule on the element it styles in one of two ways. The name
marker `$$` stands for the name of the rule and is filled in when the rule is
rendered. The host marker `&` stands for the default selector and is filled in
when the selector is normalised.

- `hasName`, `fillName`: the name marker. Of adjacent dollar signs the leftmost
  two are a marker, then the search goes on behind them.
- `hasHost`, `fillHost`: the host marker.
- `isAnchored`: does a text hold a marker of either kind?
-/

namespace AtomicCss.Selector

/-- Does the text hold a name marker? -/
def hasName : List Char → Bool
  | '$' :: '$' :: _ => true
  | _ :: cs => hasName cs
  | [] => false

/-- The text with every name marker replaced by `name`. -/
def fillName (name : List Char) : List Char → List Char
  | '$' :: '$' :: cs => name ++ fillName name cs
  | c :: cs => c :: fillName name cs
  | [] => []

/-- Does the text hold a host marker? -/
def hasHost (cs : List Char) : Bool := cs.contains '&'

/-- The text with every host marker replaced by the default selector. -/
def fillHost (host : List Char) (cs : List Char) : List Char :=
  cs.flatMap fun c => if c = '&' then host else [c]

/-- Does the text hold a marker? -/
def isAnchored (cs : List Char) : Bool := hasName cs || hasHost cs

/-- A selector with the name of its rule filled in. -/
def named (name selector : String) : String :=
  String.ofList (fillName name.toList selector.toList)

end AtomicCss.Selector
