import AtomicCss.Declaration
import AtomicCss.Style.Value

/-!
# Stylesheets

Rules that share the outer part of their chains share its blocks: the stylesheet
is a tree whose branches are selectors in the order in which they first occur.

- `Block`: a node of the tree, with the bodies that stand in it.
- `Block.insert`: enter a body at the end of a chain, once.
- `Block.text`, `Block.childrenText`: the text of a block and of a whole tree.
- `Stylesheet.render`: the stylesheet of named rules.
- `Stylesheet.preview`: the stylesheet of declarations without names.
-/

namespace AtomicCss

/-- The inside of a block: bodies of declarations, then blocks by selector. -/
inductive Block where
  | mk (bodies : List String) (children : List (String × Block))

namespace Block

/-- A block with nothing in it. -/
def empty : Block := .mk [] []

/-- The bodies that stand in a block. -/
def bodies : Block → List String
  | .mk bodies _ => bodies

/-- The blocks inside a block. -/
def children : Block → Table String Block
  | .mk _ children => children

/-- Enter a body at the end of a chain of selectors, unless it stands there. -/
def insert : (chain : List String) → (body : String) → Block → Block
  | [], body, b => .mk (pushNew b.bodies body) b.children
  | selector :: chain, body, b =>
    let child := (Table.get? b.children selector).getD empty
    .mk b.bodies (Table.insert b.children selector (insert chain body child))

/-- The tree of chains with bodies, entered one after the other. -/
def ofEntries (entries : List (List String × String)) : Block :=
  entries.foldl (fun b e => b.insert e.1 e.2) empty

mutual

/-- The text of a block under its selector. Bodies are parted by semicolons, and
one more stands between them and the blocks inside. -/
def text (selector : String) : Block → List Char
  | .mk bodies children =>
    selector.toList ++ '\x7b' :: ((";".intercalate bodies).toList
      ++ ((if bodies.isEmpty || children.isEmpty then [] else [';'])
        ++ (childrenChars children ++ ['\x7d'])))
termination_by structural b => b

/-- The texts of blocks one after the other. -/
def childrenChars : List (String × Block) → List Char
  | [] => []
  | (selector, b) :: rest => text selector b ++ childrenChars rest
termination_by structural cs => cs

end

/-- The text of the blocks of a tree. -/
def childrenText (b : Block) : String := String.ofList (childrenChars b.children)

end Block

namespace Stylesheet

/-- The chain of a rule with its name filled in, and its body. -/
def entryOfRule (r : AtomicRule) : List String × String :=
  (r.declaration.chain.map (Selector.named r.name), r.declaration.body)

/-- The chain and the body of a declaration as they are. -/
def entryOfDeclaration (d : Declaration) : List String × String := (d.chain, d.body)

/-- The stylesheet of a list of rules. Rules that cannot be written are left
out. -/
def render (rules : List AtomicRule) : String :=
  (Block.ofEntries ((rules.filter (·.declaration.isRenderable)).map entryOfRule)).childrenText

/-- The stylesheet of a list of declarations, name markers left in place. -/
def preview (declarations : List Declaration) : String :=
  (Block.ofEntries ((declarations.filter (·.isRenderable)).map entryOfDeclaration)).childrenText

end Stylesheet

end AtomicCss
