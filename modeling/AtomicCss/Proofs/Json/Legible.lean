import AtomicCss.Json.Reader

/-!
# Written JSON is read back

The text of a string or of an array is read as the value that it was written for, and the
reading stops right behind it, so whatever follows does not matter. No character is read
twice and every value has at least one of its own, which bounds the steps of the reader.

- `Json.stringBody_escapeChar`: an escape is read as the character that it stands for.
- `Json.Legible`: a value whose text is read as the value.
- `Json.legible_string`, `Json.legible_array`: strings are legible, and so are arrays of
  legible values, however deep they are.
- `Json.read_compact`: a legible value is the content of the document that it is written in.
-/

namespace AtomicCss.Json

open AtomicCss.Text

/-! ## Strings -/

theorem hexValue?_hexDigit : ∀ d < 16, hexValue? (hexDigit d) = some d := by decide

/-- The four digits of an escaped control character are read back. -/
theorem hexWord?_hexDigit {n : Nat} (h : n < 0x20) :
    hexWord? '0' '0' (hexDigit (n / 16)) (hexDigit (n % 16)) = some n := by
  have hzero : hexValue? '0' = some 0 := rfl
  rw [hexWord?, hzero, hexValue?_hexDigit _ (by omega), hexValue?_hexDigit _ (by omega)]
  show some (((0 * 16 + 0) * 16 + n / 16) * 16 + n % 16) = some n
  congr 1
  omega

/-- An escape is read as the character that it stands for. -/
theorem stringBody_escapeChar (c : Char) (seen cs : List Char) :
    stringBody true none seen (escapeChar c ++ cs) = stringBody true none (c :: seen) cs := by
  unfold escapeChar
  -- the escapes of two characters come first, in the order in which they are tried
  by_cases hquote : c = '"'
  · subst hquote; rfl
  by_cases hslash : c = '\\'
  · subst hslash; rfl
  by_cases hn : c = '\n'
  · subst hn; rfl
  by_cases hr : c = '\r'
  · subst hr; rfl
  by_cases ht : c = '\t'
  · subst ht; rfl
  by_cases hb : c.toNat = 0x08
  · obtain rfl : c = Char.ofNat 0x08 := by rw [← hb, Char.ofNat_toNat]
    rfl
  by_cases hf : c.toNat = 0x0C
  · obtain rfl : c = Char.ofNat 0x0C := by rw [← hf, Char.ofNat_toNat]
    rfl
  simp only [hquote, hslash, hn, hr, ht, hb, hf, if_false]
  by_cases hcontrol : c.toNat < 0x20
  · -- a control character is no half of a surrogate pair
    have hpair : ¬(0xD800 ≤ c.toNat ∧ c.toNat ≤ 0xDBFF) ∧
        ¬(0xDC00 ≤ c.toNat ∧ c.toNat ≤ 0xDFFF) := by omega
    rw [if_pos hcontrol]
    show stringBody true none seen ('\\' :: 'u' :: '0' :: '0' :: _ :: _ :: cs) = _
    rw [stringBody.eq_3 _ _ _ _ _ _ _ _ (hexWord?_hexDigit hcontrol), if_neg (by simp),
      if_neg hpair.1, if_neg hpair.2, Char.ofNat_toNat]
  · simp [hcontrol, hquote, hslash, stringBody]

/-- The written characters of a string are read back up to the closing quote. -/
theorem stringBody_append (s : String) (rest : List Char) :
    stringBody true none [] (s.toList.flatMap escapeChar ++ '"' :: rest) = .ok (s, rest) := by
  have hbody : ∀ cs seen : List Char,
      stringBody true none seen (cs.flatMap escapeChar ++ '"' :: rest) =
        .ok (String.ofList (seen.reverse ++ cs), rest) := by
    intro cs
    induction cs with
    | nil =>
      intro seen
      simp [stringBody]
    | cons c cs ih =>
      intro seen
      rw [List.flatMap_cons, List.append_assoc, stringBody_escapeChar, ih]
      simp
  rw [hbody, List.reverse_nil, List.nil_append, String.ofList_toList]

/-! ## Steps of the reader -/

section

variable {steps : Nat} {cs rest rest' : List Char} {x : Json} {xs : List Json}

/-- A value that begins with a quote is the string behind it. -/
theorem value_quote {s : String} (h : stringBody true none [] cs = .ok (s, rest)) :
    value true (steps + 1) ('"' :: cs) = .ok (.string s, rest) := by
  show Except.bind (stringBody true none [] cs) _ = _
  rw [h]
  rfl

/-- An element in front of a closing bracket is the last one. -/
theorem elements_last (h : value true steps cs = .ok (x, ']' :: rest)) :
    elements true (steps + 1) cs = .ok ([x], rest) := by
  show Except.bind (value true steps cs) _ = _
  rw [h]
  rfl

/-- Behind a comma the elements go on. -/
theorem elements_more (h : value true steps cs = .ok (x, ',' :: rest))
    (hmore : elements true steps rest = .ok (xs, rest')) :
    elements true (steps + 1) cs = .ok (x :: xs, rest') := by
  show Except.bind (value true steps cs) _ = _
  rw [h]
  show Except.bind (elements true steps rest) _ = _
  rw [hmore]
  rfl

/-- The text begins with a string or an array. -/
def BeginsValue (cs : List Char) : Prop := cs.head? = some '"' ∨ cs.head? = some '['

theorem BeginsValue.append (h : BeginsValue cs) (rest : List Char) : BeginsValue (cs ++ rest) := by
  cases cs with
  | nil => exact absurd h (by simp [BeginsValue])
  | cons c cs => exact h

/-- What begins with a value is no end of an array. -/
theorem value_bracket (hbegins : BeginsValue cs) (h : elements true steps cs = .ok (xs, rest)) :
    value true (steps + 1) ('[' :: cs) = .ok (.array xs, rest) := by
  rcases hbegins with hc | hc
  all_goals
    obtain ⟨tail, rfl⟩ := List.head?_eq_some_iff.1 hc
    show Except.bind (elements true steps (_ :: tail)) _ = _
    rw [h]
    rfl

/-- A document that begins with a string or an array holds that value. -/
theorem read_of_value {text : String} (hbegins : BeginsValue text.toList)
    (h : value true (2 * text.toList.length + 2) text.toList = .ok (x, [])) :
    read text = .ok x := by
  have hrun : ∀ {p : Scanner Json} {cs : List Char}, p cs = .ok (x, []) → p.run cs = .ok x := by
    intro p cs hp
    rw [Scanner.run, hp]
  refine hrun ?_
  rcases hbegins with hc | hc
  all_goals
    obtain ⟨tail, htail⟩ := List.head?_eq_some_iff.1 hc
    rw [htail] at h ⊢
    show Except.bind (value true _ (_ :: tail)) _ = _
    rw [h]
    rfl

end

/-! ## Values -/

/-- The text of the value is read as the value, whatever stands behind it, in at most as many
steps as it has characters. -/
structure Legible (j : Json) : Prop where
  begins : BeginsValue j.chars
  reads : ∀ (steps : Nat) (rest : List Char), j.chars.length ≤ steps →
    value true steps (j.chars ++ rest) = .ok (j, rest)

/-- Every string is legible, whatever characters have to be escaped in it. -/
theorem legible_string (s : String) : Legible (.string s) := by
  refine ⟨Or.inl rfl, fun steps rest hsteps => ?_⟩
  have htext : chars (.string s) ++ rest = '"' :: (s.toList.flatMap escapeChar ++ '"' :: rest) := by
    simp [chars, quote]
  obtain ⟨steps, rfl⟩ : ∃ n, steps = n + 1 :=
    Nat.exists_eq_add_one.2 (Nat.lt_of_lt_of_le (by simp [chars, quote]) hsteps)
  rw [htext]
  exact value_quote (stringBody_append s rest)

/-- Legible elements are read up to the bracket that closes their array. -/
theorem elements_append {rest : List Char} :
    ∀ {xs : List Json} {steps : Nat}, xs ≠ [] → (∀ x ∈ xs, Legible x) →
      (elementChars xs).length < steps →
        elements true steps (elementChars xs ++ ']' :: rest) = .ok (xs, rest)
  | [x], steps + 1, _, hxs, hsteps => by
    have htext : elementChars [x] = x.chars := by simp [elementChars]
    rw [htext] at hsteps ⊢
    exact elements_last ((hxs x (by simp)).reads _ _ (by omega))
  | x :: y :: xs, steps + 1, _, hxs, hsteps => by
    have htext : elementChars (x :: y :: xs) = x.chars ++ ',' :: elementChars (y :: xs) := by
      simp [elementChars]
    rw [htext, List.length_append, List.length_cons] at hsteps
    rw [htext, List.append_assoc, List.cons_append]
    refine elements_more ((hxs x (by simp)).reads _ _ (by omega)) ?_
    exact elements_append (by simp) (fun z hz => hxs z (List.mem_cons_of_mem x hz)) (by omega)

/-- An array of legible values is legible. -/
theorem legible_array {xs : List Json} (h : ∀ x ∈ xs, Legible x) : Legible (.array xs) := by
  refine ⟨Or.inr rfl, fun steps rest hsteps => ?_⟩
  have htext : chars (.array xs) ++ rest = '[' :: (elementChars xs ++ ']' :: rest) := by
    simp [chars]
  simp only [chars, List.length_cons, List.length_append] at hsteps
  obtain ⟨steps, rfl⟩ : ∃ n, steps = n + 1 := Nat.exists_eq_add_one.2 (by omega)
  rw [htext]
  cases xs with
  | nil => rfl
  | cons x xs =>
    refine value_bracket ?_ (elements_append (by simp) h (by omega))
    rw [elementChars, List.append_assoc]
    exact (h x (by simp)).begins.append _

/-- A list of strings is legible, as its elements are. -/
theorem legible_strings (xs : List String) : Legible (.strings xs) :=
  legible_array (List.forall_mem_map.2 fun s _ => legible_string s)

/-- A legible value is what the document with its text is read as. -/
theorem read_compact {j : Json} (h : Legible j) : read j.compact = .ok j := by
  have htext : j.compact.toList = j.chars := String.toList_ofList
  have hvalue := h.reads (2 * j.chars.length + 2) [] (by omega)
  rw [List.append_nil] at hvalue
  exact read_of_value (by rw [htext]; exact h.begins) (by rw [htext]; exact hvalue)

end AtomicCss.Json
