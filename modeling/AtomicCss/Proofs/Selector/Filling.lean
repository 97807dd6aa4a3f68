import AtomicCss.Proofs.Numeral
import AtomicCss.Proofs.Selector.Anchoring

/-!
# Selectors with their names filled in

A name marker is two dollar signs, and a selector may have any number of them side by
side. Filling in a name takes away all markers and makes no new one: a dollar sign that is
left over has no other one behind it, and the name neither holds a marker nor ends in a
dollar sign, because it ends in a numeral.

- `Selector.Unmarked`: a text without name markers that does not end in a dollar sign.
- `Selector.hasName_append`: where texts without markers meet there is a marker only if
  there is a dollar sign on both sides.
- `Selector.hasName_fillName`: filling in such a name leaves no marker.
- `Selector.isInfix_fillName`: a text with a marker has the name in it then.
- `Numeral.unmarked_append_ofNat`: a prefix without markers and a numeral are such a name.
-/

namespace AtomicCss

namespace Selector

variable {cs ds name : List Char} {c : Char}

/-- A text that has no name marker in it and does not end in a dollar sign. -/
structure Unmarked (cs : List Char) : Prop where
  hasName : hasName cs = false
  getLast? : cs.getLast? ≠ some '$'

/-- A marker stands at the beginning of a text or behind its first character. -/
theorem hasName_cons (c : Char) (cs : List Char) :
    hasName (c :: cs) = (decide (c = '$' ∧ cs.head? = some '$') || hasName cs) := by
  by_cases h : c = '$' ∧ cs.head? = some '$'
  · obtain ⟨rfl, hhead⟩ := h
    obtain ⟨rest, rfl⟩ := List.head?_eq_some_iff.1 hhead
    rfl
  · rw [decide_eq_false h, Bool.false_or]
    refine hasName.eq_2 c cs fun rest hc hcs => h ⟨hc, ?_⟩
    rw [hcs]
    rfl

/-- Where two texts without markers meet there is no marker, unless there is a dollar sign
on both sides. -/
theorem hasName_append (hcs : hasName cs = false) (hds : hasName ds = false)
    (hmeet : cs.getLast? = some '$' → ds.head? ≠ some '$') : hasName (cs ++ ds) = false := by
  induction cs with
  | nil => exact hds
  | cons c cs ih =>
    obtain ⟨hhead, hcs⟩ : ¬(c = '$' ∧ cs.head? = some '$') ∧ hasName cs = false := by
      simpa [hasName_cons] using hcs
    rw [List.cons_append, hasName_cons, Bool.or_eq_false_iff, decide_eq_false_iff_not]
    cases cs with
    | nil => exact ⟨fun ⟨hc, hd⟩ => hmeet (hc ▸ rfl) hd, hds⟩
    | cons c' cs => exact ⟨hhead, ih hcs fun hlast => hmeet (by simpa using hlast)⟩

/-- What is filled in starts like the text, unless there is a marker. -/
theorem head?_fillName (h : cs.head? ≠ some '$') :
    (fillName name cs).head? = cs.head? := by
  fun_cases fillName name cs with
  | case1 rest => exact absurd rfl h
  | case2 => rfl
  | case3 => rfl

/-- Filling in a name leaves no marker. -/
theorem hasName_fillName (hname : Unmarked name) (cs : List Char) :
    hasName (fillName name cs) = false := by
  fun_induction fillName name cs with
  | case1 rest ih =>
    exact hasName_append hname.hasName ih fun hlast => absurd hlast hname.getLast?
  | case2 c rest hne ih =>
    rw [hasName_cons, ih, Bool.or_false, decide_eq_false_iff_not]
    rintro ⟨rfl, hhead⟩
    -- a dollar sign that is left over has none behind it, and gets none
    have hrest : rest.head? ≠ some '$' := fun h =>
      (List.head?_eq_some_iff.1 h).elim fun tail htail => hne tail rfl htail
    rw [head?_fillName hrest] at hhead
    exact hrest hhead
  | case3 => rfl

/-- A text with a marker has the name in it once it is filled in. -/
theorem isInfix_fillName (h : hasName cs = true) : name <:+: fillName name cs := by
  fun_induction fillName name cs with
  | case1 rest ih => exact (List.prefix_append _ _).isInfix
  | case2 c rest hne ih =>
    rw [hasName.eq_2 c rest hne] at h
    exact (ih h).trans (List.suffix_cons _ _).isInfix
  | case3 => cases h

end Selector

namespace Numeral

open Selector

theorem ne_dollar_of_mem_ofNat {n : Nat} {c : Char} (h : c ∈ (ofNat n).toList) : c ≠ '$' := by
  rintro rfl
  exact absurd (mem_alphabet_of_mem_ofNat h) (by decide)

/-- A prefix without markers and a numeral have no marker and do not end in a dollar
sign, whatever the prefix ends in. -/
theorem unmarked_append_ofNat {namePrefix : List Char} (h : hasName namePrefix = false)
    (n : Nat) : Unmarked (namePrefix ++ (ofNat n).toList) := by
  have hnumeral : hasName (ofNat n).toList = false := by
    rw [Bool.eq_false_iff, ne_eq, hasName_iff_isInfix]
    exact fun hmarker => ne_dollar_of_mem_ofNat (hmarker.subset List.mem_cons_self) rfl
  constructor
  · refine hasName_append h hnumeral fun _ hhead => ?_
    exact ne_dollar_of_mem_ofNat (List.mem_of_head? hhead) rfl
  · rw [List.getLast?_append_of_ne_nil _ (ofNat_ne_nil n)]
    exact fun hlast => ne_dollar_of_mem_ofNat (List.mem_of_getLast? hlast) rfl

end Numeral

end AtomicCss
