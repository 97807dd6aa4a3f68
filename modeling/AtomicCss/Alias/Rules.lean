import AtomicCss.Alias.Memo
import AtomicCss.Error

/-!
# Alias rules

An alias is resolved by rules of two sorts. A static rule answers one input; a
pattern rule answers every input that it matches, with a value computed from the
match. Static rules come first, and within a sort the rule registered first.

- `AliasRules.lookup?`: the answer of the rules alone.
- `AliasRules.resolve`: the remembered answer, or else that of the rules, which
  is then remembered. An input without an answer is not remembered.
- `addStatic`, `addPattern`, `removeStatic`, `removePattern`: changes of the
  rules. Redefining or removing a rule forgets the inputs it could have answered;
  a new rule forgets nothing.
-/

namespace AtomicCss

/-- A rule for one input. -/
structure StaticRule (α : Type) where
  key : String
  input : String
  resolved : α
  deriving DecidableEq, Repr

/-- A rule for every input that a pattern matches: `answer?` is the value
computed from the match, if there is one. -/
structure PatternRule (α : Type) where
  key : String
  pattern : String
  answer? : String → Option α

/-- Does the pattern of a rule match an input? -/
def PatternRule.isMatch {α : Type} (r : PatternRule α) (input : String) : Bool :=
  (r.answer? input).isSome

/-- Rules in registration order, and what was resolved with them. -/
structure AliasRules (α : Type) where
  statics : Table String (StaticRule α) := []
  patterns : Table String (PatternRule α) := []
  memo : Memo α := {}

namespace AliasRules

variable {α : Type}

/-- The answer of the rules to an input, whatever is remembered. -/
def lookup? (r : AliasRules α) (input : String) : Option α :=
  match r.statics.values.find? fun rule => rule.input = input with
  | some rule => some rule.resolved
  | none => r.patterns.values.findSome? fun rule => rule.answer? input

/-- Remember an answer. -/
def remember (r : AliasRules α) (input : String) (answer : α) : AliasRules α :=
  { r with memo := r.memo.set input answer }

/-- Forget the inputs that satisfy `p`. -/
def forget (r : AliasRules α) (p : String → Bool) : AliasRules α :=
  { r with memo := r.memo.evict p }

/-- The answer to an input, remembered or looked up. -/
def resolve (r : AliasRules α) (input : String) : Option α × AliasRules α :=
  match r.memo.get? input with
  | some answer => (some answer, r)
  | none =>
    match r.lookup? input with
    | some answer => (some answer, r.remember input answer)
    | none => (none, r)

/-- Register a static rule. A rule of the same key is replaced in place, with a
warning, and its input is forgotten. -/
def addStatic (r : AliasRules α) (rule : StaticRule α) : AliasRules α × List Warning :=
  match Table.get? r.statics rule.key with
  | some old =>
    let r := r.forget fun input => input = old.input
    ({ r with statics := Table.insert r.statics rule.key rule },
      [.staticRedefined rule.key old.input])
  | none => ({ r with statics := Table.insert r.statics rule.key rule }, [])

/-- Register a pattern rule. A rule of the same key is replaced in place, with a
warning, and the inputs that it matches are forgotten. -/
def addPattern (r : AliasRules α) (rule : PatternRule α) : AliasRules α × List Warning :=
  match Table.get? r.patterns rule.key with
  | some old =>
    let r := r.forget old.isMatch
    ({ r with patterns := Table.insert r.patterns rule.key rule },
      [.patternRedefined rule.key old.pattern])
  | none => ({ r with patterns := Table.insert r.patterns rule.key rule }, [])

/-- Remove a static rule and forget its input. -/
def removeStatic (r : AliasRules α) (key : String) : Option (StaticRule α) × AliasRules α :=
  match Table.get? r.statics key with
  | some old =>
    (some old, { r with statics := Table.erase r.statics key }.forget fun i => i = old.input)
  | none => (none, r)

/-- Remove a pattern rule and forget the inputs that it matches. -/
def removePattern (r : AliasRules α) (key : String) : Option (PatternRule α) × AliasRules α :=
  match Table.get? r.patterns key with
  | some old =>
    (some old, { r with patterns := Table.erase r.patterns key }.forget old.isMatch)
  | none => (none, r)

/-- Register the static rule of an alias, which is its own key. -/
def addAlias (r : AliasRules α) (name : String) (resolved : α) : AliasRules α × List Warning :=
  r.addStatic ⟨name, name, resolved⟩

/-- Register the static rules of several aliases one after the other. -/
def addAliases (r : AliasRules α) : List (String × α) → AliasRules α × List Warning
  | [] => (r, [])
  | (name, resolved) :: rest =>
    let (r, warnings) := r.addAlias name resolved
    let (r, more) := addAliases r rest
    (r, warnings ++ more)

end AliasRules

end AtomicCss
