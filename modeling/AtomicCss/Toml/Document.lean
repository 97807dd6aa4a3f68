import AtomicCss.Json.Value

/-!
# TOML documents

A document is a sequence of sections, each with a header and the pairs below it.
The sections define one tree of tables; a table may be given in several places
only as far as the rules for headers and dotted keys allow.

- `Section`: a header with its pairs, in the order of the text.
- `Node`: the tree while it is being built, which remembers how each table came
  about.
- `Node.setPair`: a pair with a dotted key.
- `Node.place`: a section at the place that its header names. A table that was
  only implied by a longer header moves to the end when its own header comes.
- `ofSections`: the value of a document.
-/

namespace AtomicCss.Toml

/-- How a table came about. -/
inductive Origin where
  /-- By its own header. -/
  | header
  /-- By the header of a table inside it. -/
  | implied
  /-- By a dotted key. -/
  | dotted
  deriving DecidableEq, Repr

/-- A node of the tree: a finished value, a table, or tables in a list. -/
inductive Node where
  | value (v : Json)
  | table (origin : Origin) (entries : List (String × Node))
  | tables (tables : List (List (String × Node)))

/-- The entries of a table. -/
abbrev Entries := Table String Node

/-- A key with the keys before its dots, and a value. -/
structure Pair where
  path : List String
  key : String
  value : Json

/-- What a header names. -/
inductive Header where
  /-- The document itself. -/
  | root
  | table (path : List String) (key : String)
  /-- A further table in a list of tables. -/
  | element (path : List String) (key : String)
  deriving DecidableEq, Repr

/-- A header and the pairs below it. -/
structure Section where
  header : Header
  pairs : List Pair

namespace Node

mutual

/-- The value of a node. -/
def toJson : Node → Json
  | .value v => v
  | .table _ entries => .object (fieldsOf entries)
  | .tables ts => .array (objectsOf ts)
termination_by structural n => n

/-- The fields of a table. -/
def fieldsOf : List (String × Node) → List (String × Json)
  | [] => []
  | (k, n) :: entries => (k, toJson n) :: fieldsOf entries
termination_by structural es => es

/-- The objects of a list of tables. -/
def objectsOf : List (List (String × Node)) → List Json
  | [] => []
  | t :: ts => .object (fieldsOf t) :: objectsOf ts
termination_by structural ts => ts

end

/-- Change the last table of a list. -/
def onLast (f : Entries → Option Entries) : List Entries → Option (List Entries)
  | [] => none
  | [t] => (f t).map ([·])
  | t :: ts => (onLast f ts).map (t :: ·)

/-- Enter a pair along the path of its dotted key. `open?` tells whether a new
key may be entered where the path ends. Tables with a header of their own are
closed to dotted keys, and only tables made by dotted keys end a path. -/
def setPair (key : String) (value : Json) : (path : List String) → (open? : Bool) →
    Entries → Option Entries
  | [], open?, es =>
    if open? && !Table.contains es key then some (Table.insert es key (.value value)) else none
  | k :: path, _, es =>
    match Table.get? es k with
    | none => (setPair key value path true []).map fun t => Table.insert es k (.table .dotted t)
    | some (.value _) => none
    | some (.table .header _) => none
    | some (.table origin t) =>
      (setPair key value path (origin = .dotted) t).map fun t =>
        Table.insert es k (.table origin t)
    | some (.tables ts) =>
      (onLast (setPair key value path false) ts).map fun ts => Table.insert es k (.tables ts)

/-- Enter pairs one after the other. -/
def setPairs : List Pair → Entries → Option Entries
  | [], es => some es
  | p :: ps, es => (setPair p.key p.value p.path true es).bind (setPairs ps)

/-- Change the table at the end of a path of headers. Tables on the way are
implied, and of a list of tables the last one is meant. -/
def along (f : Entries → Option Entries) : (path : List String) → Entries → Option Entries
  | [], es => f es
  | k :: path, es =>
    match Table.get? es k with
    | none => (along f path []).map fun t => Table.insert es k (.table .implied t)
    | some (.value _) => none
    | some (.table origin t) => (along f path t).map fun t => Table.insert es k (.table origin t)
    | some (.tables ts) => (onLast (along f path) ts).map fun ts => Table.insert es k (.tables ts)

/-- Enter a section into the tree. -/
def place (s : Section) (root : Entries) : Option Entries :=
  match s.header with
  | .root => setPairs s.pairs root
  | .table path key =>
    along (fun es =>
      match Table.get? es key with
      | none => (setPairs s.pairs []).map fun t => Table.insert es key (.table .header t)
      | some (.table .implied t) =>
        (setPairs s.pairs t).map fun t =>
          Table.insert (Table.erase es key) key (.table .header t)
      | some _ => none) path root
  | .element path key =>
    along (fun es =>
      match Table.get? es key with
      | none => (setPairs s.pairs []).map fun t => Table.insert es key (.tables [t])
      | some (.tables ts) =>
        (setPairs s.pairs []).map fun t => Table.insert es key (.tables (ts ++ [t]))
      | some _ => none) path root

end Node

/-- The object of the pairs of an inline table. -/
def ofPairs (ps : List Pair) : Option Json :=
  (Node.setPairs ps []).map fun es => .object (Node.fieldsOf es)

/-- The object of a document. -/
def ofSections (sections : List Section) : Option Json :=
  (sections.foldlM (fun root s => Node.place s root) ([] : Entries)).map fun es =>
    .object (Node.fieldsOf es)

end AtomicCss.Toml
