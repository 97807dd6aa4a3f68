import AtomicCss.Declaration
import AtomicCss.Numeral
import AtomicCss.Table

/-!
# The store of rules

Rules are addressed by content: a declaration that was seen before has the name
it was given then, a new one is named by the number of declarations seen so far,
behind a prefix that the caller chooses.

- `Store.intern`: the name of a declaration, created if it is new.
- `Store.nameOf?`, `Store.get?`: the two directions between names and rules.
- `Store.rules`: the rules in creation order.
-/

namespace AtomicCss

/-- The name of a declaration, and whether it is new. -/
structure Interned where
  name : String
  created : Bool
  deriving DecidableEq, Repr

/-- Names by the key of their declaration, and rules by name. -/
structure Store where
  names : Table String String := []
  entries : Table String AtomicRule := []
  deriving DecidableEq, Repr

namespace Store

/-- The name that a new declaration gets. -/
def nextName (s : Store) (namePrefix : String) : String :=
  namePrefix ++ Numeral.ofNat s.names.length

/-- The name of a declaration. A new one enters the store; should its name be
taken already, it replaces the rule of that name in place. -/
def intern (s : Store) (d : Declaration) (namePrefix : String) : Interned × Store :=
  match Table.get? s.names d.key with
  | some name => (⟨name, false⟩, s)
  | none =>
    let name := s.nextName namePrefix
    (⟨name, true⟩,
      { names := Table.insert s.names d.key name
        entries := Table.insert s.entries name ⟨name, d⟩ })

/-- The name of a declaration that is in the store. -/
def nameOf? (s : Store) (d : Declaration) : Option String := Table.get? s.names d.key

/-- The rule of a name. -/
def get? (s : Store) (name : String) : Option AtomicRule := Table.get? s.entries name

/-- The rules in the order in which their names were first given. -/
def rules (s : Store) : List AtomicRule := Table.values s.entries

/-- The number of rules. -/
def size (s : Store) : Nat := s.entries.length

/-- Is the store without rules? -/
def isEmpty (s : Store) : Bool := s.entries.isEmpty

end Store

end AtomicCss
