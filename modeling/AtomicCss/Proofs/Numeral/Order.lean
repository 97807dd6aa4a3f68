import AtomicCss.Proofs.Numeral
import Mathlib.Data.List.Shortlex

/-!
# Numerals in order

Counting upwards runs through the texts of letters without a needless zero in front:
shorter texts come first, and texts of one length come in the order of the alphabet. The
length changes behind a text of `Z` only, and there order by length and order by number
agree, too.

- `Numeral.Canonical`: a text of letters without a needless zero in front.
- `Numeral.ofNat_eq_iff`: the canonical texts are the numerals of the numbers that they
  stand for.
- `Numeral.shortlex_ofNat`: greater numbers have later numerals.
- `Numeral.counts_in_order`: all of it together.
-/

namespace AtomicCss.Numeral

/-- A text of ASCII letters, not empty, in which the zero `a` is in front only if it
stands alone. -/
structure Canonical (cs : List Char) : Prop where
  ne_nil : cs ≠ []
  letters : ∀ c ∈ cs, c.isAlpha = true
  leading : cs.head? = some 'a' → cs = ['a']

/-- The first letter comes before the second one in the alphabet. -/
def Before (c d : Char) : Prop := alphabet.idxOf c < alphabet.idxOf d

instance : Std.Asymm Before := ⟨fun _ _ h => Nat.lt_asymm h⟩

/-! ## Letters -/

theorem toNat_lt_of_isAlpha {c : Char} (h : c.isAlpha = true) : c.toNat < 128 := by
  have hcases : c.isUpper = true ∨ c.isLower = true := (Bool.or_eq_true _ _).mp h
  rcases hcases with hupper | hlower
  · have hle : c.val ≤ 'Z'.val := (of_decide_eq_true hupper).2
    exact Nat.lt_of_le_of_lt (UInt32.le_iff_toNat_le.1 hle) (by decide)
  · have hle : c.val ≤ 'z'.val := of_decide_eq_true ((Bool.and_eq_true _ _).mp hlower).2
    exact Nat.lt_of_le_of_lt (UInt32.le_iff_toNat_le.1 hle) (by decide)

/-- The letters of the alphabet are the ASCII letters. -/
theorem mem_alphabet_iff {c : Char} : c ∈ alphabet ↔ c.isAlpha = true := by
  have hletters : ∀ d ∈ alphabet, d.isAlpha = true := List.all_eq_true.1 (by decide)
  have hascii : ∀ n < 128, (Char.ofNat n).isAlpha = true → Char.ofNat n ∈ alphabet := by
    decide +kernel
  refine ⟨hletters c, fun h => ?_⟩
  rw [← Char.ofNat_toNat c] at h ⊢
  exact hascii _ (toNat_lt_of_isAlpha (by rwa [Char.ofNat_toNat] at h)) h

theorem idxOf_lt {c : Char} (h : c ∈ alphabet) : alphabet.idxOf c < 52 :=
  List.idxOf_lt_length_of_mem h

theorem letter_idxOf {c : Char} (h : c ∈ alphabet) : letter (alphabet.idxOf c) = c := by
  rw [letter, List.getD_eq_getElem?_getD, List.getElem?_idxOf h, Option.getD_some]

/-! ## Canonical texts -/

theorem canonical_ofNat (n : Nat) : Canonical (ofNat n).toList := by
  refine ⟨ofNat_ne_nil n, fun c hc => mem_alphabet_iff.1 (mem_alphabet_of_mem_ofNat hc), ?_⟩
  induction n using digit_induction with
  | digit d hd =>
    rw [toList_ofNat_of_lt hd]
    intro h
    rw [Option.some.inj h]
  | behind q d hq hd ih =>
    rw [toList_ofNat_behind hq hd, List.head?_append_of_ne_nil _ (ofNat_ne_nil q)]
    intro h
    -- only zero has a zero in front, and `q` is not zero
    have hzero : value (ofNat q).toList = 0 := by rw [ih h]; rfl
    rw [value_ofNat] at hzero
    omega

/-- A canonical text is the numeral of the number that it stands for. -/
theorem ofNat_value {cs : List Char} (h : Canonical cs) : (ofNat (value cs)).toList = cs := by
  induction cs using List.reverseRecOn with
  | nil => exact absurd rfl h.ne_nil
  | append_singleton front c ih =>
    have hc : c ∈ alphabet := mem_alphabet_iff.2 (h.letters c (by simp))
    rw [value_append_singleton]
    by_cases hfront : front = []
    · subst hfront
      rw [show value [] = 0 from rfl, Nat.mul_zero, Nat.zero_add,
        toList_ofNat_of_lt (idxOf_lt hc), letter_idxOf hc, List.nil_append]
    · have hhead : front.head? ≠ some 'a' := by
        intro ha
        have hone := h.leading (by rw [List.head?_append_of_ne_nil _ hfront, ha])
        exact hfront (by simpa using congrArg List.dropLast hone)
      have hnumeral := ih ⟨hfront, fun d hd => h.letters d (by simp [hd]),
        fun ha => absurd ha hhead⟩
      have hpos : 0 < value front := by
        refine Nat.pos_of_ne_zero fun hzero => hhead ?_
        rw [← hnumeral, hzero]
        rfl
      rw [toList_ofNat_behind hpos (idxOf_lt hc), letter_idxOf hc, hnumeral]

/-- The numerals are the canonical texts, each that of the number that it stands for. -/
theorem ofNat_eq_iff {n : Nat} {name : String} :
    ofNat n = name ↔ Canonical name.toList ∧ value name.toList = n := by
  constructor
  · rintro rfl
    exact ⟨canonical_ofNat n, value_ofNat n⟩
  · rintro ⟨h, rfl⟩
    exact String.toList_inj.1 (ofNat_value h)

/-! ## Order -/

/-- Letters behind two texts do not change which one is first. -/
theorem shortlex_append_singleton {cs ds : List Char} (h : List.Shortlex Before cs ds)
    (c d : Char) : List.Shortlex Before (cs ++ [c]) (ds ++ [d]) := by
  rcases List.shortlex_def.1 h with hlength | ⟨hlength, hlex⟩
  · exact .of_length_lt (by simpa using hlength)
  · refine .of_lex (by simpa using hlength) ?_
    induction hlex with
    | nil => simp at hlength
    | cons _ ih => exact .cons (ih (.of_lex (by simpa using hlength) ‹_›) (by simpa using hlength))
    | rel hcd => exact .rel hcd

/-- Greater numbers have later numerals. -/
theorem shortlex_ofNat {m n : Nat} (h : m < n) :
    List.Shortlex Before (ofNat m).toList (ofNat n).toList := by
  induction n using digit_induction generalizing m with
  | digit d hd =>
    have hm : m < 52 := by omega
    rw [toList_ofNat_of_lt hm, toList_ofNat_of_lt hd, List.shortlex_singleton_iff, Before,
      idxOf_letter m hm, idxOf_letter d hd]
    exact h
  | behind q d hq hd ih =>
    rw [toList_ofNat_behind hq hd]
    by_cases hm : m < 52
    · -- a single letter is shorter
      have hlength := List.length_pos_of_ne_nil (ofNat_ne_nil q)
      exact .of_length_lt (by rw [length_ofNat_of_lt hm, List.length_append]; simpa using hlength)
    · obtain ⟨p, c, hp, hc, rfl⟩ : ∃ p c, 0 < p ∧ c < 52 ∧ m = 52 * p + c :=
        ⟨m / 52, m % 52, by omega, by omega, by omega⟩
      rw [toList_ofNat_behind hp hc]
      -- what is in front decides, and the last digit if it is the same
      rcases Nat.lt_or_ge p q with hpq | hpq
      · exact shortlex_append_singleton (ih hpq) _ _
      · obtain rfl : p = q := by omega
        refine List.Shortlex.append_left ?_ _
        rw [List.shortlex_singleton_iff, Before, idxOf_letter c hc, idxOf_letter d hd]
        omega

theorem shortlex_ofNat_iff {m n : Nat} :
    List.Shortlex Before (ofNat m).toList (ofNat n).toList ↔ m < n := by
  refine ⟨fun h => ?_, shortlex_ofNat⟩
  rcases Nat.lt_trichotomy m n with hlt | rfl | hgt
  · exact hlt
  · exact absurd h (Std.Irrefl.irrefl _)
  · exact absurd (shortlex_ofNat hgt) (Std.Asymm.asymm _ _ h)

/-- Numerals count through the canonical texts. The numeral of a number is canonical, has a
zero in front only if the number is zero, and reads back as the number. Every canonical text
is the numeral of exactly one number, and of one below a bound, such as that of the machine's
words, exactly if it stands for a number below the bound. And the order of numbers is that of
their numerals, first by length and then letter by letter. -/
theorem counts_in_order :
    (∀ n, Canonical (ofNat n).toList ∧ ((ofNat n).toList.head? = some 'a' → n = 0) ∧
      value (ofNat n).toList = n) ∧
    (∀ name : String, Canonical name.toList → (∃! n, ofNat n = name) ∧
      ∀ bound, (∃ n < bound, ofNat n = name) ↔ value name.toList < bound) ∧
    ∀ m n, m < n ↔ List.Shortlex Before (ofNat m).toList (ofNat n).toList := by
  refine ⟨fun n => ⟨canonical_ofNat n, fun h => ?_, value_ofNat n⟩, fun name h => ?_,
    fun m n => shortlex_ofNat_iff.symm⟩
  · rw [← value_ofNat n, (canonical_ofNat n).leading h]
    rfl
  · have hname : ofNat (value name.toList) = name := ofNat_eq_iff.2 ⟨h, rfl⟩
    have hunique : ∀ n, ofNat n = name → n = value name.toList :=
      fun n hn => (ofNat_eq_iff.1 hn).2.symm
    refine ⟨⟨_, hname, hunique⟩, fun bound => ⟨?_, fun hlt => ⟨_, hlt, hname⟩⟩⟩
    rintro ⟨n, hlt, hn⟩
    rwa [← hunique n hn]

/-- The first name of two letters comes right behind the last one of one letter. -/
theorem counts_in_order_ba :
    Canonical "ba".toList ∧ (∃! n, ofNat n = "ba") ∧
      List.Shortlex Before (ofNat 51).toList (ofNat 52).toList := by
  have hcanonical : Canonical "ba".toList :=
    ⟨by decide, List.all_eq_true.1 (by decide), by decide⟩
  exact ⟨hcanonical, (counts_in_order.2.1 "ba" hcanonical).1,
    (counts_in_order.2.2 51 52).1 (by decide)⟩

end AtomicCss.Numeral
