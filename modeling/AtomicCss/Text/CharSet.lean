/-!
# Sets of characters

A set of characters is a list of ranges of code points, ends included. The ranges
stand in order, and between two of them there is a gap, so that a set has one
form. Code points that belong to no character may lie in a range.

- `CharSet.contains`: is a character in the set?
- `CharSet.union`, `compl`, `inter`, `diff`: the operations of sets.
- `CharSet.only?`: the character of a set that holds just one.
- `CharSet.contains_union`: a union holds what one of its parts holds.
-/

namespace AtomicCss.Text

/-- A set of characters. -/
structure CharSet where
  ranges : List (Nat × Nat)
  deriving DecidableEq, Repr

namespace CharSet

/-- The greatest code point. -/
def greatest : Nat := 0x10FFFF

/-- Does a code point lie in a range? -/
def inside (n : Nat) (r : Nat × Nat) : Bool := r.1 ≤ n && n ≤ r.2

/-- Does a code point lie in the set? -/
def has (s : CharSet) (n : Nat) : Bool := s.ranges.any (inside n)

/-- Is the character in the set? -/
def contains (s : CharSet) (c : Char) : Bool := s.has c.toNat

/-- The empty set. -/
def empty : CharSet := ⟨[]⟩

/-- The characters from one to another, which does not come before it. -/
def range (first last : Char) : CharSet := ⟨[(first.toNat, last.toNat)]⟩

/-- The set of one character. -/
def single (c : Char) : CharSet := range c c

/-- The character of a set that holds just one. -/
def only? (s : CharSet) : Option Char :=
  match s.ranges with
  | [(a, b)] => if a = b then some (Char.ofNat a) else none
  | _ => none

/-- Does the set hold ASCII characters only? -/
def isAscii (s : CharSet) : Bool := s.ranges.all fun r => r.2 < 0x80

/-! ## Operations -/

/-- Ranges in order with one more; ranges that touch become one. -/
def insertRange (a b : Nat) : List (Nat × Nat) → List (Nat × Nat)
  | [] => [(a, b)]
  | (c, d) :: rest =>
    if b + 1 < c then (a, b) :: (c, d) :: rest
    else if d + 1 < a then (c, d) :: insertRange a b rest
    else insertRange (min a c) (max b d) rest

/-- The set with one more code point. -/
def insert (s : CharSet) (n : Nat) : CharSet := ⟨insertRange n n s.ranges⟩

/-- What one of two sets holds. -/
def union (s t : CharSet) : CharSet :=
  ⟨t.ranges.foldl (fun ranges r => insertRange r.1 r.2 ranges) s.ranges⟩

/-- The set of the characters of some ranges. -/
def ofRanges (ranges : List (Char × Char)) : CharSet :=
  ranges.foldl (fun s r => s.union (range r.1 r.2)) empty

/-- The code points from `next` on that lie between ranges. -/
def gaps (next : Nat) : List (Nat × Nat) → List (Nat × Nat)
  | [] => if next ≤ greatest then [(next, greatest)] else []
  | (a, b) :: rest =>
    if next < a then (next, a - 1) :: gaps (b + 1) rest else gaps (b + 1) rest

/-- What a set does not hold. -/
def compl (s : CharSet) : CharSet := ⟨gaps 0 s.ranges⟩

/-- What two sets both hold. -/
def inter (s t : CharSet) : CharSet := (s.compl.union t.compl).compl

/-- What the first of two sets holds and the second does not. -/
def diff (s t : CharSet) : CharSet := s.inter t.compl

/-- All characters. -/
def all : CharSet := empty.compl

/-! ## What they hold -/

theorem any_insertRange (n a b : Nat) (ranges : List (Nat × Nat)) :
    (insertRange a b ranges).any (inside n) = (inside n (a, b) || ranges.any (inside n)) := by
  fun_induction insertRange a b ranges with
  | case1 a b => simp
  | case2 a b c d rest h => simp
  | case3 a b c d rest h h' ih =>
    simp only [List.any_cons, ih]
    exact Bool.or_left_comm ..
  | case4 a b c d rest h h' ih =>
    rw [ih, List.any_cons, ← Bool.or_assoc]
    congr 1
    rw [Bool.eq_iff_iff]
    simp only [inside, Bool.or_eq_true, Bool.and_eq_true, decide_eq_true_eq]
    omega

/-- A union holds what one of its parts holds. -/
theorem has_union (s t : CharSet) (n : Nat) : (s.union t).has n = (s.has n || t.has n) := by
  simp only [union, has]
  generalize s.ranges = ranges
  induction t.ranges generalizing ranges with
  | nil => simp
  | cons r rest ih =>
    rw [List.foldl_cons, ih, any_insertRange, List.any_cons, Bool.or_comm (inside n _),
      Bool.or_assoc]

theorem contains_union (s t : CharSet) (c : Char) :
    (s.union t).contains c = (s.contains c || t.contains c) := has_union s t c.toNat

theorem contains_single (c d : Char) : (single c).contains d = (c == d) := by
  rw [Bool.eq_iff_iff]
  simp only [contains, has, single, range, inside, List.any_cons, List.any_nil, Bool.or_false,
    Bool.and_eq_true, decide_eq_true_eq, beq_iff_eq]
  constructor
  · intro h
    exact Char.toNat_inj.1 (Nat.le_antisymm h.1 h.2)
  · rintro rfl
    exact ⟨Nat.le_refl _, Nat.le_refl _⟩

end CharSet

end AtomicCss.Text
