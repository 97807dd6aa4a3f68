import AtomicCss.Text.CharSet

/-!
# Characters as bytes

The characters of a set, written in UTF-8, are a list of sequences of byte ranges:
a character is in the set if its bytes lie in the ranges of one sequence. A range
of code points has such a sequence if all its characters have equally many bytes
and each byte but the first that varies runs through all its values; so ranges are
cut until that holds.

- `bytesOf`: the bytes of a code point.
- `byteSequences`: the sequences of a set, in order.
-/

namespace AtomicCss.Pattern

open AtomicCss.Text

/-- A range of bytes, ends included. -/
abbrev ByteRange := Nat × Nat

/-- The bytes of a code point in UTF-8. -/
def bytesOf (n : Nat) : List Nat :=
  if n < 0x80 then [n]
  else if n < 0x800 then [0xC0 + n / 64, 0x80 + n % 64]
  else if n < 0x10000 then [0xE0 + n / 4096, 0x80 + n / 64 % 64, 0x80 + n % 64]
  else [0xF0 + n / 262144, 0x80 + n / 4096 % 64, 0x80 + n / 64 % 64, 0x80 + n % 64]

/-- A range without the code points that belong to no character. -/
def dropSurrogates (r : Nat × Nat) : List (Nat × Nat) :=
  if r.1 < 0xE000 ∧ 0xD7FF < r.2 then
    [(r.1, 0xD7FF), (0xE000, r.2)].filter fun p => p.1 ≤ p.2
  else [r]

/-- A range cut behind a code point. -/
def cutBehind (n : Nat) (r : Nat × Nat) : List (Nat × Nat) :=
  if r.1 ≤ n ∧ n < r.2 then [(r.1, n), (n + 1, r.2)] else [r]

/-- A range cut where blocks of code points begin or end, if it holds parts of
several blocks. A range of ASCII is kept. -/
def cutBlocks (block : Nat) (r : Nat × Nat) : List (Nat × Nat) :=
  if r.2 < 0x80 ∨ r.1 / block = r.2 / block then [r]
  else
    let inner := (r.1 + block - 1) / block * block
    let first := if r.1 < inner then [(r.1, inner - 1)] else []
    let outer := r.2 / block * block
    if inner = outer ∨ r.2 % block = block - 1 then first ++ [(inner, r.2)]
    else first ++ [(inner, outer - 1), (outer, r.2)]

/-- The sequence of a range that is cut as far as needed. -/
def sequenceOf (r : Nat × Nat) : List ByteRange := (bytesOf r.1).zip (bytesOf r.2)

/-- The sequences of the characters of a set. -/
def byteSequences (s : CharSet) : List (List ByteRange) :=
  let equallyLong := s.ranges.flatMap fun r =>
    (dropSurrogates r).flatMap fun r => (cutBehind 0x7F r).flatMap fun r =>
      (cutBehind 0x7FF r).flatMap (cutBehind 0xFFFF)
  equallyLong.flatMap fun r =>
    (cutBlocks 64 r).flatMap fun r => (cutBlocks 4096 r).flatMap fun r =>
      (cutBlocks 262144 r).map sequenceOf

end AtomicCss.Pattern
