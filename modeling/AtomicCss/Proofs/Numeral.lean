import AtomicCss.Numeral
import Mathlib.Data.List.Induction

/-!
# Reading numerals back

- `Numeral.value`: the number that a text of letters stands for in base 52.
- `Numeral.digit_induction`: numbers are made by putting digits behind numbers.
- `Numeral.value_ofNat`: the numeral of a number reads back as that number.
- `Numeral.ofNat_injective`: so different numbers have different numerals.
- `Numeral.le_of_ofNat_eq_append`: a numeral that ends in another one is not of a smaller
  number.
-/

namespace AtomicCss.Numeral

/-- The number that a list of letters stands for, most significant letter first. -/
def value (cs : List Char) : Nat := cs.foldl (fun n c => 52 * n + alphabet.idxOf c) 0

theorem idxOf_letter : ∀ d < 52, alphabet.idxOf (letter d) = d := by decide

/-- A letter that is put behind the others counts as the last digit. -/
theorem value_append_singleton (cs : List Char) (c : Char) :
    value (cs ++ [c]) = 52 * value cs + alphabet.idxOf c := by
  simp [value]

/-! ## Numerals digit by digit -/

/-- Every number is a digit, or a digit behind a number that is not zero. -/
theorem digit_induction {P : Nat → Prop} (digit : ∀ d < 52, P d)
    (behind : ∀ q d, 0 < q → d < 52 → P q → P (52 * q + d)) (n : Nat) : P n := by
  induction n using Nat.strongRecOn with
  | ind n ih =>
    by_cases h : n < 52
    · exact digit n h
    · rw [← Nat.div_add_mod n 52]
      exact behind _ _ (by omega) (by omega) (ih _ (by omega))

theorem toList_ofNat_of_lt {d : Nat} (h : d < 52) : (ofNat d).toList = [letter d] := by
  rw [ofNat, String.toList_ofList, digits_eq, if_pos h, List.map_singleton]

/-- The last digit of a number is written behind the numeral of the others. -/
theorem toList_ofNat_behind {q d : Nat} (hq : 0 < q) (hd : d < 52) :
    (ofNat (52 * q + d)).toList = (ofNat q).toList ++ [letter d] := by
  have hdiv : (52 * q + d) / 52 = q := by omega
  have hmod : (52 * q + d) % 52 = d := by omega
  rw [ofNat, String.toList_ofList, digits_eq, if_neg (by omega), hdiv, hmod, List.map_append,
    List.map_singleton, ofNat, String.toList_ofList]

/-- The numeral of `n` stands for `n`. -/
theorem value_ofNat (n : Nat) : value (ofNat n).toList = n := by
  induction n using digit_induction with
  | digit d hd =>
    rw [toList_ofNat_of_lt hd]
    show 52 * 0 + alphabet.idxOf (letter d) = d
    rw [idxOf_letter d hd, Nat.mul_zero, Nat.zero_add]
  | behind q d hq hd ih =>
    rw [toList_ofNat_behind hq hd, value_append_singleton, ih, idxOf_letter d hd]

/-- Different numbers have different numerals. -/
theorem ofNat_injective {m n : Nat} (h : ofNat m = ofNat n) : m = n := by
  rw [← value_ofNat m, h, value_ofNat]

/-! ## Numerals inside numerals -/

/-- Letters in front do not make a number smaller. -/
theorem value_le_value_append (cs ds : List Char) : value ds ≤ value (cs ++ ds) := by
  induction ds using List.reverseRecOn with
  | nil => exact Nat.zero_le _
  | append_singleton ds d ih =>
    rw [← List.append_assoc, value_append_singleton, value_append_singleton]
    exact Nat.add_le_add_right (Nat.mul_le_mul_left 52 ih) _

/-- A numeral that ends in the one of `n` is that of `n` or of a greater number. -/
theorem le_of_ofNat_eq_append {m n : Nat} {cs : List Char}
    (h : (ofNat m).toList = cs ++ (ofNat n).toList) : n ≤ m := by
  calc n = value (ofNat n).toList := (value_ofNat n).symm
    _ ≤ value (cs ++ (ofNat n).toList) := value_le_value_append cs _
    _ = m := by rw [← h, value_ofNat]

theorem letter_mem_alphabet (d : Nat) : letter d ∈ alphabet := by
  rw [letter, List.getD_eq_getElem?_getD]
  cases h : alphabet[d]? with
  | none => decide
  | some c => exact List.mem_of_getElem? h

/-- A numeral has letters only. -/
theorem mem_alphabet_of_mem_ofNat {n : Nat} {c : Char} (h : c ∈ (ofNat n).toList) :
    c ∈ alphabet := by
  rw [ofNat, String.toList_ofList] at h
  obtain ⟨d, -, rfl⟩ := List.mem_map.1 h
  exact letter_mem_alphabet d

/-- Every number is written with a letter at least, zero as well. -/
theorem ofNat_ne_nil (n : Nat) : (ofNat n).toList ≠ [] := by
  rw [ofNat, String.toList_ofList, digits_eq]
  split <;> simp

/-- The numerals of the numbers below fifty-two are single letters. -/
theorem length_ofNat_of_lt {n : Nat} (h : n < 52) : (ofNat n).toList.length = 1 := by
  rw [toList_ofNat_of_lt h, List.length_singleton]

end AtomicCss.Numeral
