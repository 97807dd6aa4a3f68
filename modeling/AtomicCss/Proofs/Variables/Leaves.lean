import AtomicCss.Plugin.Variables
import Mathlib.Data.List.Basic

/-!
# The leaves of a tree of variables

The walk over the variables goes through the leaves of a tree, depth first. What it declares and
where it ends is told from these leaves.

- `Json.At`: a value stands at a place in a tree, under the keys on the way to it.
- `Json.leaves`, `Json.mem_leaves`, `Json.pairwise_leaves`: the leaves in the order of their places.
- `Variables.declare`: declare leaf by leaf.
- `Variables.collect_eq`: the walk over a tree does.
- `Variables.declare_of_supported`, `Variables.declare_of_not_supported`: how it ends.
-/

namespace AtomicCss

/-- The value stands at the place that the indices lead to, object by object, under the keys that
are on the way. -/
inductive Json.At : Json → List Nat → List String → Json → Prop
  | here (j : Json) : At j [] [] j
  | inside {fields : List (String × Json)} {i : Nat} {key : String} {j inner : Json}
      {place : List Nat} {keys : List String} : fields[i]? = some (key, j) →
      At j place keys inner → At (.object fields) (i :: place) (key :: keys) inner

namespace Json

/-- A value in a tree, with its place and the keys that lead to it. -/
structure Located where
  place : List Nat
  keys : List String
  value : Json

/-- What stands in a field, seen from the object. -/
def Located.under (i : Nat) (key : String) (l : Located) : Located :=
  ⟨i :: l.place, key :: l.keys, l.value⟩

/-- Is the value a leaf of a tree of objects? -/
def isLeaf : Json → Bool
  | .object _ => false
  | _ => true

mutual

/-- The leaves of a tree, depth first. -/
def leaves : Json → List Located
  | .object fields => leavesOf 0 fields
  | j => [⟨[], [], j⟩]
termination_by structural j => j

/-- The leaves of fields that are counted from an index on. -/
def leavesOf (i : Nat) : List (String × Json) → List Located
  | [] => []
  | (key, value) :: fields => value.leaves.map (Located.under i key) ++ leavesOf (i + 1) fields
termination_by structural fields => fields

end

mutual

/-- What holds of leaves, and of an object if it does of the values of its fields, holds of all
trees. -/
theorem tree_induct {motive : Json → Prop} (leaf : ∀ j, j.isLeaf = true → motive j)
    (object : ∀ fields : List (String × Json), (∀ e ∈ fields, motive e.2) →
      motive (.object fields)) : ∀ j, motive j
  | .object fields => object fields (tree_induct_fields leaf object fields)
  | .null => leaf _ rfl
  | .bool _ => leaf _ rfl
  | .int _ => leaf _ rfl
  | .double _ => leaf _ rfl
  | .string _ => leaf _ rfl
  | .array _ => leaf _ rfl
termination_by structural j => j

theorem tree_induct_fields {motive : Json → Prop} (leaf : ∀ j, j.isLeaf = true → motive j)
    (object : ∀ fields : List (String × Json), (∀ e ∈ fields, motive e.2) →
      motive (.object fields)) : ∀ fields : List (String × Json), ∀ e ∈ fields, motive e.2
  | [], _, h => nomatch h
  | (_, j) :: fields, e, h => by
    rcases List.mem_cons.1 h with rfl | h
    · exact tree_induct leaf object j
    · exact tree_induct_fields leaf object fields e h
termination_by structural fields => fields

end

variable {fields : List (String × Json)} {j inner : Json} {place : List Nat} {keys : List String}
  {l : Located}

theorem leaves_of_isLeaf (h : j.isLeaf = true) : j.leaves = [⟨[], [], j⟩] := by
  cases j <;> first | rfl | cases h

theorem mem_leavesOf {i : Nat} : l ∈ leavesOf i fields ↔
    ∃ (n : Nat) (key : String) (j : Json) (l' : Located),
      fields[n]? = some (key, j) ∧ l' ∈ j.leaves ∧ l = l'.under (i + n) key := by
  induction fields generalizing i with
  | nil => simp [leavesOf]
  | cons e fields ih =>
    rw [leavesOf, List.mem_append, List.mem_map, ih]
    constructor
    · rintro (⟨l', hl', rfl⟩ | ⟨n, key, j, l', hn, hl', rfl⟩)
      · exact ⟨0, e.1, e.2, l', rfl, hl', rfl⟩
      · exact ⟨n + 1, key, j, l', hn, hl', by rw [Nat.add_assoc, Nat.add_comm 1]⟩
    · rintro ⟨n, key, j, l', hn, hl', rfl⟩
      cases n with
      | zero =>
        obtain rfl := Option.some.inj hn
        exact .inl ⟨l', hl', rfl⟩
      | succ n => exact .inr ⟨n, key, j, l', hn, hl', by rw [Nat.add_assoc, Nat.add_comm 1]⟩

theorem at_iff_of_isLeaf (h : j.isLeaf = true) :
    j.At place keys inner ↔ place = [] ∧ keys = [] ∧ inner = j := by
  constructor
  · rintro (_ | _)
    · exact ⟨rfl, rfl, rfl⟩
    · cases h
  · rintro ⟨rfl, rfl, rfl⟩
    exact .here inner

/-- The leaves of a tree are the values in it that are no objects. -/
theorem mem_leaves : l ∈ j.leaves ↔ j.At l.place l.keys l.value ∧ l.value.isLeaf = true := by
  induction j using tree_induct generalizing l with
  | leaf j h =>
    obtain ⟨place, keys, value⟩ := l
    rw [leaves_of_isLeaf h, List.mem_singleton, at_iff_of_isLeaf h, Located.mk.injEq]
    constructor
    · rintro ⟨rfl, rfl, rfl⟩
      exact ⟨⟨rfl, rfl, rfl⟩, h⟩
    · exact And.left
  | object fields ih =>
    rw [leaves, mem_leavesOf]
    constructor
    · rintro ⟨n, key, j, l, hn, hl, rfl⟩
      obtain ⟨hat, hleaf⟩ := (ih _ (List.mem_of_getElem? hn)).1 hl
      exact ⟨.inside (by rwa [Nat.zero_add]) hat, hleaf⟩
    · obtain ⟨place, keys, value⟩ := l
      rintro ⟨_ | ⟨hn, hat⟩, hleaf⟩
      · cases hleaf
      · exact ⟨_, _, _, ⟨_, _, value⟩, hn, (ih _ (List.mem_of_getElem? hn)).2 ⟨hat, hleaf⟩,
          by rw [Nat.zero_add]; rfl⟩

theorem pairwise_leavesOf {i : Nat}
    (h : ∀ e ∈ fields, e.2.leaves.Pairwise fun l l' => l.place < l'.place) :
    (leavesOf i fields).Pairwise fun l l' => l.place < l'.place := by
  induction fields generalizing i with
  | nil => exact .nil
  | cons e fields ih =>
    obtain ⟨he, hfields⟩ := List.forall_mem_cons.1 h
    rw [leavesOf, List.pairwise_append, List.pairwise_map]
    refine ⟨he.imp fun h => List.cons_lt_cons_iff.2 (.inr ⟨rfl, h⟩), ih hfields, ?_⟩
    rintro _ hl _ hl'
    obtain ⟨l, -, rfl⟩ := List.mem_map.1 hl
    obtain ⟨n, key, j, l', -, -, rfl⟩ := mem_leavesOf.1 hl'
    exact List.cons_lt_cons_iff.2 (.inl (by omega))

/-- Depth first is the order of the places. -/
theorem pairwise_leaves (j : Json) : j.leaves.Pairwise fun l l' => l.place < l'.place := by
  induction j using tree_induct with
  | leaf j h => exact leaves_of_isLeaf h ▸ List.pairwise_singleton _ _
  | object fields ih => exact pairwise_leavesOf ih

end Json

/-! ## The walk -/

namespace Variables

open Json

variable {namePrefix path : String} {l bad : Located} {ls before after : List Located}

/-- The text that a value gives to a variable, if it is text or a number. -/
def text? : Json → Option String
  | .string s => some s
  | .int n => some (Json.int n).compact
  | .double x => some (Json.double x).compact
  | _ => none

/-- A leaf that the walk can pass: text, a number or null. -/
def isSupported (j : Json) : Bool := (text? j).isSome || j matches .null

/-- The path of a leaf behind the path of the tree. -/
def pathOf (path : String) (l : Located) : String := l.keys.foldl joinPath path

/-- What a leaf declares, if anything. -/
def declares (namePrefix path : String) (l : Located) : Option (String × String) :=
  (text? l.value).map fun text => (propertyOf namePrefix (pathOf path l), text)

/-- The error of a leaf that is not supported. -/
def complaint (path : String) (l : Located) : Error :=
  .invalidFormat (.badVariable (pathOf path l) l.value)

/-- Declare what the leaves say, up to the first one that is not supported. -/
def declare (namePrefix path : String) : List Located → List (String × String) × Except Error Unit
  | [] => ([], .ok ())
  | l :: ls =>
    if isSupported l.value then
      let (declared, result) := declare namePrefix path ls
      ((declares namePrefix path l).toList ++ declared, result)
    else ([], .error (complaint path l))

theorem declare_of_supported (h : ∀ l ∈ ls, isSupported l.value = true) :
    declare namePrefix path ls = (ls.filterMap (declares namePrefix path), .ok ()) := by
  induction ls with
  | nil => rfl
  | cons l ls ih =>
    obtain ⟨hl, hls⟩ := List.forall_mem_cons.1 h
    rw [declare, if_pos hl, ih hls, List.filterMap_cons]
    cases declares namePrefix path l <;> rfl

theorem declare_of_not_supported (hbefore : ∀ l ∈ before, isSupported l.value = true)
    (hbad : isSupported bad.value = false) :
    declare namePrefix path (before ++ bad :: after) =
      (before.filterMap (declares namePrefix path), .error (complaint path bad)) := by
  induction before with
  | nil => simp [declare, hbad]
  | cons l before ih =>
    obtain ⟨hl, hbefore⟩ := List.forall_mem_cons.1 hbefore
    rw [List.cons_append, declare, if_pos hl, ih hbefore, List.filterMap_cons]
    cases declares namePrefix path l <;> rfl

/-- All leaves can be passed, or there is a first one that cannot. -/
theorem supported_or_exists_bad (ls : List Located) : (∀ l ∈ ls, isSupported l.value = true) ∨
    ∃ before bad after, ls = before ++ bad :: after ∧
      (∀ l ∈ before, isSupported l.value = true) ∧ isSupported bad.value = false := by
  cases hfind : ls.find? fun l => !isSupported l.value with
  | none => exact .inl fun l hl => by simpa using List.find?_eq_none.1 hfind l hl
  | some bad =>
    obtain ⟨hbad, before, after, rfl, hbefore⟩ := List.find?_eq_some_iff_append.1 hfind
    exact .inr ⟨before, bad, after, rfl, fun l hl => by simpa using hbefore l hl,
      by simpa using hbad⟩

theorem declare_append (ls ls' : List Located) : declare namePrefix path (ls ++ ls') =
    match declare namePrefix path ls with
    | (declared, .error e) => (declared, .error e)
    | (declared, .ok ()) =>
      let (more, result) := declare namePrefix path ls'
      (declared ++ more, result) := by
  induction ls with
  | nil => rfl
  | cons l ls ih =>
    rw [List.cons_append, declare, declare, ih]
    cases isSupported l.value with
    | false => rfl
    | true =>
      rcases declare namePrefix path ls with ⟨declared, err | _⟩
      · rfl
      · simp

theorem declare_map_under (i : Nat) (key : String) (ls : List Located) :
    declare namePrefix path (ls.map (Located.under i key)) =
      declare namePrefix (joinPath path key) ls := by
  induction ls with
  | nil => rfl
  | cons l ls ih =>
    rw [List.map_cons, declare, ih]
    rfl

/-- The walk over a tree declares leaf by leaf. -/
theorem collect_eq (j : Json) : collect namePrefix path j = declare namePrefix path j.leaves := by
  induction j using tree_induct generalizing path with
  | leaf j h => cases j <;> first | rfl | cases h
  | object fields ih =>
    -- the index is part of the places only, which the walk does not see
    have hfields (i : Nat) : collectFields namePrefix path fields =
        declare namePrefix path (leavesOf i fields) := by
      induction fields generalizing i with
      | nil => rfl
      | cons e fields ih' =>
        obtain ⟨he, hfields⟩ := List.forall_mem_cons.1 ih
        rw [leavesOf, declare_append, declare_map_under, ← he, ← ih' hfields (i + 1)]
        rfl
    exact hfields 0

end Variables

end AtomicCss
