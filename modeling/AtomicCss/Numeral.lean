/-!
# Names as base-52 numerals

The rule that is created as number `n` is named by the numeral of `n` over the
fifty-two letters `a` to `z`, `A` to `Z`, most significant letter first: `a` is
zero, `Z` is fifty-one, `ba` is fifty-two.

- `Numeral.digits`: the digits of a number, most significant first.
- `Numeral.ofNat`: the name of a number.
-/

namespace AtomicCss.Numeral

/-- The digits of the numerals in ascending order. -/
def alphabet : List Char :=
  "abcdefghijklmnopqrstuvwxyzABCDEFGHIJKLMNOPQRSTUVWXYZ".toList

/-- The letter of a digit below fifty-two. -/
def letter (d : Nat) : Char := alphabet.getD d 'a'

/-- Digits of `n`, at most `bound` of them. -/
def digitsWithin : (bound n : Nat) → List Nat
  | 0, _ => []
  | bound + 1, n => if n < 52 then [n] else digitsWithin bound (n / 52) ++ [n % 52]

/-- Digits of `n` in base 52, most significant first. A number has fewer digits
than `n + 1`, so the bound is never met. -/
def digits (n : Nat) : List Nat := digitsWithin (n + 1) n

/-- The numeral of `n`. -/
def ofNat (n : Nat) : String := String.ofList ((digits n).map letter)

theorem digitsWithin_of_lt {n : Nat} :
    ∀ {b b' : Nat}, n < b → n < b' → digitsWithin b n = digitsWithin b' n := by
  induction n using Nat.strongRecOn with
  | ind n ih =>
    intro b b' hb hb'
    match b, b' with
    | b + 1, b' + 1 =>
      by_cases h : n < 52
      · simp [digitsWithin, h]
      · have hlt : n / 52 < n := Nat.div_lt_self (by omega) (by omega)
        simp only [digitsWithin, h, if_false]
        rw [ih (n / 52) hlt (by omega : n / 52 < b) (by omega : n / 52 < b')]

/-- The defining equation of the digits, without a bound. -/
theorem digits_eq (n : Nat) :
    digits n = if n < 52 then [n] else digits (n / 52) ++ [n % 52] := by
  by_cases h : n < 52
  · simp [digits, digitsWithin, h]
  · have hlt : n / 52 < n := Nat.div_lt_self (by omega) (by omega)
    rw [digits, digitsWithin]
    simp only [h, if_false]
    rw [digitsWithin_of_lt (by omega : n / 52 < n) (by omega : n / 52 < n / 52 + 1)]
    rfl

end AtomicCss.Numeral
