import AtomicCss.Text.Blank
import Mathlib.Data.List.TakeWhile

/-!
# Trimmed texts

Trimming takes away the blanks at both ends and nothing else, so a text is what is left of
it between two stretches of blanks, and blanks that are put around a text do not show in
what is left.

- `Text.Trimmed`: a text that does not begin or end with a blank.
- `Text.exists_trim`: what is left stands between blanks.
- `Text.trimmed_trim`, `Text.trim_eq_self`: trimming leaves trimmed texts, and leaves them
  alone.
- `Text.trim_blanks_append`, `Text.trim_append_blanks`: blanks around a text do not matter.
-/

namespace AtomicCss.Text

variable {cs blanks : List Char}

/-- The text neither begins nor ends with a blank. -/
structure Trimmed (cs : List Char) : Prop where
  head : ∀ c, cs.head? = some c → isBlank c = false
  last : ∀ c, cs.getLast? = some c → isBlank c = false

/-! ## What trimming leaves -/

/-- Behind what is left there are blanks only. -/
theorem exists_blanks (cs : List Char) :
    ∃ blanks, cs = trimEnd cs ++ blanks ∧ ∀ c ∈ blanks, isBlank c = true := by
  refine ⟨(cs.reverse.takeWhile isBlank).reverse, ?_, fun c hc => ?_⟩
  · rw [trimEnd, ← List.reverse_append, List.takeWhile_append_dropWhile, List.reverse_reverse]
  · exact List.mem_takeWhile_imp (List.mem_reverse.1 hc)

/-- In front of what is left and behind it there are blanks only. -/
theorem exists_trim (cs : List Char) :
    ∃ front back, cs = front ++ (trim cs ++ back) ∧ (∀ c ∈ front, isBlank c = true) ∧
      ∀ c ∈ back, isBlank c = true := by
  obtain ⟨back, hback, hblanks⟩ := exists_blanks (cs.dropWhile isBlank)
  refine ⟨cs.takeWhile isBlank, back, ?_, fun c hc => List.mem_takeWhile_imp hc, hblanks⟩
  rw [trim, ← hback, List.takeWhile_append_dropWhile]

theorem isBlank_of_head?_dropWhile (cs : List Char) {c : Char}
    (h : (cs.dropWhile isBlank).head? = some c) : isBlank c = false := by
  have hnot := List.head?_dropWhile_not isBlank cs
  rwa [h] at hnot

/-- Trimming leaves a trimmed text. -/
theorem trimmed_trim (cs : List Char) : Trimmed (trim cs) := by
  constructor
  · intro c hc
    obtain ⟨back, hback, -⟩ := exists_blanks (cs.dropWhile isBlank)
    rw [trim] at hc
    refine isBlank_of_head?_dropWhile cs ?_
    rw [hback, List.head?_append, hc, Option.some_or]
  · intro c hc
    rw [trim, trimEnd, List.getLast?_reverse] at hc
    exact isBlank_of_head?_dropWhile _ hc

/-! ## Texts that are left alone -/

theorem dropWhile_eq_self (h : ∀ c, cs.head? = some c → isBlank c = false) :
    cs.dropWhile isBlank = cs := by
  cases cs with
  | nil => rfl
  | cons c cs => exact List.dropWhile_cons_of_neg (by simp [h c rfl])

theorem trimEnd_eq_self (h : ∀ c, cs.getLast? = some c → isBlank c = false) :
    trimEnd cs = cs := by
  rw [trimEnd, dropWhile_eq_self (fun c hc => h c (by rwa [List.head?_reverse] at hc)),
    List.reverse_reverse]

/-- A trimmed text is not trimmed any further. -/
theorem trim_eq_self (h : Trimmed cs) : trim cs = cs := by
  rw [trim, dropWhile_eq_self h.head, trimEnd_eq_self h.last]

/-- A text is trimmed exactly if trimming leaves it alone. -/
theorem trimmed_iff : Trimmed cs ↔ trim cs = cs :=
  ⟨trim_eq_self, fun h => h ▸ trimmed_trim cs⟩

/-! ## Blanks around a text -/

/-- Blanks behind a text are trimmed away. -/
theorem trimEnd_append_blanks (h : ∀ c ∈ blanks, isBlank c = true) (cs : List Char) :
    trimEnd (cs ++ blanks) = trimEnd cs := by
  rw [trimEnd, List.reverse_append,
    List.dropWhile_append_of_pos fun c hc => h c (List.mem_reverse.1 hc), trimEnd]

/-- A text that ends in another character is left, and the blanks behind it are not. -/
theorem trimEnd_append {front : List Char} {c : Char} (hc : isBlank c = false)
    (hblanks : ∀ d ∈ blanks, isBlank d = true) :
    trimEnd (front ++ [c] ++ blanks) = front ++ [c] := by
  rw [trimEnd_append_blanks hblanks]
  exact trimEnd_eq_self fun d hd => by
    rw [List.getLast?_concat, Option.some.injEq] at hd
    rw [← hd, hc]

/-- Blanks in front of a text do not change what trimming leaves. -/
theorem trim_blanks_append (h : ∀ c ∈ blanks, isBlank c = true) (cs : List Char) :
    trim (blanks ++ cs) = trim cs := by
  rw [trim, List.dropWhile_append_of_pos h, trim]

theorem trim_append_blanks (h : ∀ c ∈ blanks, isBlank c = true) (cs : List Char) :
    trim (cs ++ blanks) = trim cs := by
  rw [trim, trim, List.dropWhile_append]
  split
  · next hcs =>
    rw [List.isEmpty_iff.1 hcs, List.dropWhile_eq_nil_iff.2 h]
  · exact trimEnd_append_blanks h _

end AtomicCss.Text
