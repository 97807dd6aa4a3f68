import AtomicCss.Text.CharSet

/-!
# Blank characters

The white space of the Unicode property `White_Space`: 25 characters, six of
them in ASCII. Selector lists are trimmed of them, and the words of an animation
value are separated by them.

- `blankChars`, `isBlank`: the property itself.
- `trim`, `trimEnd`: a text without blank characters at its ends.
-/

namespace AtomicCss.Text

/-- The characters of white space. -/
def blankChars : CharSet := ⟨
  [(0x9, 0xD), (0x20, 0x20), (0x85, 0x85), (0xA0, 0xA0), (0x1680, 0x1680), (0x2000, 0x200A),
   (0x2028, 0x2029), (0x202F, 0x202F), (0x205F, 0x205F), (0x3000, 0x3000)]⟩

/-- Is the character white space? -/
def isBlank (c : Char) : Bool := blankChars.contains c

/-- The text without the blank characters at its end. -/
def trimEnd (cs : List Char) : List Char := (cs.reverse.dropWhile isBlank).reverse

/-- The text without the blank characters at both ends. -/
def trim (cs : List Char) : List Char := trimEnd (cs.dropWhile isBlank)

/-- Every character that core counts as white space is blank. -/
theorem isBlank_of_isWhitespace (c : Char) (h : c.isWhitespace = true) : isBlank c = true := by
  simp only [Char.isWhitespace, Bool.or_eq_true, decide_eq_true_eq] at h
  rcases h with ((h | h) | h) | h <;> subst h <;> decide

end AtomicCss.Text
