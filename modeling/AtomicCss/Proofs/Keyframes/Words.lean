import AtomicCss.Plugin.Keyframes
import Mathlib.Data.List.Induction
import Mathlib.Data.List.TakeWhile

/-!
# The words of a value

A text is parted into words by its gaps. The words are told from the text alone: a word is a
run of characters without a gap that cannot be made longer at either end.

- `Keyframes.StandsIn`: a word stands in a text, with what is in front of it and behind it.
- `Keyframes.mem_runs_iff`: the runs of a text are what stands in it as a word.
- `Keyframes.standsIn_append_gaps`: gaps behind a text change none of its words.
- `Keyframes.standsIn_append_solid`: a text without gaps goes on with the word in front of it.
- `Keyframes.Names`, `Keyframes.mem_words_iff`: the words of a value.
-/

namespace AtomicCss.Keyframes

variable {p : Char → Bool} {c : Char} {w cs text rest before after : List Char}

/-- The word stands in the text between `before` and `after`: a run of characters, none of which
satisfies `p`, that is not empty and as long as it can be. -/
structure StandsIn (p : Char → Bool) (w text before after : List Char) : Prop where
  text_eq : text = before ++ (w ++ after)
  ne_nil : w ≠ []
  inside : ∀ c ∈ w, p c = false
  left : ∀ c ∈ before.getLast?, p c = true
  right : ∀ c ∈ after.head?, p c = true

/-! ## Runs -/

theorem runs_cons_of_gap (hc : p c = true) : runs p (c :: cs) = runs p cs := by
  rw [runs.eq_def]
  exact if_pos hc

/-- A run goes on up to the next gap. -/
theorem runs_append_word (hw : w ≠ []) (hinside : ∀ c ∈ w, p c = false)
    (hrest : ∀ c ∈ rest.head?, p c = true) : runs p (w ++ rest) = w :: runs p rest := by
  induction w with
  | nil => exact absurd rfl hw
  | cons c w ih =>
    have hc : ¬ p c = true := by simp [hinside c List.mem_cons_self]
    rw [List.cons_append, runs.eq_def]
    refine (if_neg hc).trans ?_
    cases w with
    | nil =>
      cases rest with
      | nil => rfl
      | cons d rest =>
        have hd : p d = true := hrest d rfl
        rw [List.nil_append]
        cases runs p (d :: rest) <;> simp [hd]
    | cons d w =>
      have hd : ¬ p d = true := by simp [hinside d (by simp)]
      rw [ih (by simp) fun c hc => hinside c (List.mem_cons_of_mem _ hc)]
      simp [hd]

/-- A text is empty, or begins with a gap, or with a word that goes on up to a gap or the end. -/
theorem gaps_and_words_induct {motive : List Char → Prop} (nil : motive [])
    (gap : ∀ c cs, p c = true → motive cs → motive (c :: cs))
    (word : ∀ w rest, w ≠ [] → (∀ c ∈ w, p c = false) → (∀ c ∈ rest.head?, p c = true) →
      motive rest → motive (w ++ rest)) : ∀ cs, motive cs
  | [] => nil
  | c :: cs => by
    by_cases hc : p c = true
    · exact gap c cs hc (gaps_and_words_induct nil gap word cs)
    · have hword : (c :: cs).takeWhile (fun d => !p d) ≠ [] := by simp [hc]
      have hinside : ∀ d ∈ (c :: cs).takeWhile (fun d => !p d), p d = false := fun d hd => by
        simpa using List.mem_takeWhile_imp hd
      have hrest : ∀ d ∈ ((c :: cs).dropWhile (fun d => !p d)).head?, p d = true := fun d hd => by
        have hstop := List.head?_dropWhile_not (fun d => !p d) (c :: cs)
        rw [Option.mem_def.1 hd] at hstop
        simpa using hstop
      have hsplit := List.takeWhile_append_dropWhile (p := fun d => !p d) (l := c :: cs)
      have hlt : ((c :: cs).dropWhile (fun d => !p d)).length < (c :: cs).length := by
        have hlength := congrArg List.length hsplit
        have hpos := List.length_pos_iff.2 hword
        rw [List.length_append] at hlength
        omega
      rw [← hsplit]
      exact word _ _ hword hinside hrest (gaps_and_words_induct nil gap word _)
termination_by cs => cs.length
decreasing_by
  · exact Nat.lt_succ_self _
  · exact hlt

/-! ## Standing in a text -/

theorem not_standsIn_nil : ¬ StandsIn p w [] before after := by
  rintro ⟨htext, hw, -, -, -⟩
  simp [hw] at htext

theorem standsIn_cons_gap (hc : p c = true) :
    StandsIn p w (c :: cs) before after ↔
      ∃ before', before = c :: before' ∧ StandsIn p w cs before' after := by
  constructor
  · rintro ⟨htext, hw, hinside, hleft, hright⟩
    cases before with
    | nil =>
      -- the first character of a word is no gap
      obtain ⟨d, w, rfl⟩ := List.exists_cons_of_ne_nil hw
      obtain ⟨rfl, -⟩ := List.cons.inj htext
      simp [hinside c List.mem_cons_self] at hc
    | cons d before =>
      obtain ⟨rfl, rfl⟩ := List.cons.inj htext
      refine ⟨before, rfl, rfl, hw, hinside, fun d hd => hleft d ?_, hright⟩
      rw [List.getLast?_cons, Option.mem_def.1 hd]
      rfl
  · rintro ⟨before, rfl, rfl, hw, hinside, hleft, hright⟩
    refine ⟨rfl, hw, hinside, fun d hd => ?_, hright⟩
    cases before with
    | nil => simpa [← Option.some.inj hd] using hc
    | cons d' before => exact hleft d (by simpa using hd)

/-- Two words that go on up to a gap or the end are the same if their texts are. -/
theorem eq_of_append_eq_append {w' rest' : List Char} (h : w ++ rest = w' ++ rest')
    (hw : ∀ c ∈ w, p c = false) (hrest : ∀ c ∈ rest.head?, p c = true)
    (hw' : ∀ c ∈ w', p c = false) (hrest' : ∀ c ∈ rest'.head?, p c = true) :
    w = w' ∧ rest = rest' := by
  have htake {w rest : List Char} (hw : ∀ c ∈ w, p c = false)
      (hrest : ∀ c ∈ rest.head?, p c = true) : (w ++ rest).takeWhile (fun c => !p c) = w := by
    have hstop : rest.takeWhile (fun c => !p c) = [] := by
      cases rest with
      | nil => rfl
      | cons c rest => simp [hrest c rfl]
    rw [List.takeWhile_append_of_pos fun c hc => by simp [hw c hc], hstop, List.append_nil]
  have heq : w = w' := by rw [← htake hw hrest, h, htake hw' hrest']
  exact ⟨heq, List.append_cancel_left (heq ▸ h)⟩

theorem standsIn_word_append {w₀ : List Char} (hw₀ : w₀ ≠ []) (hinside₀ : ∀ c ∈ w₀, p c = false)
    (hrest : ∀ c ∈ rest.head?, p c = true) :
    StandsIn p w (w₀ ++ rest) before after ↔
      (before = [] ∧ w = w₀ ∧ after = rest) ∨
      ∃ before', before = w₀ ++ before' ∧ StandsIn p w rest before' after := by
  constructor
  · rintro ⟨htext, hw, hinside, hleft, hright⟩
    rcases List.append_eq_append_iff.1 htext with ⟨l, rfl, hl⟩ | ⟨l, rfl, hl⟩
    · refine .inr ⟨l, rfl, hl, hw, hinside, fun c hc => hleft c ?_, hright⟩
      rw [List.getLast?_append, Option.mem_def.1 hc]
      rfl
    · cases before using List.reverseRecOn with
      | nil => exact .inl ⟨rfl, eq_of_append_eq_append hl hinside hright hinside₀ hrest⟩
      | append_singleton before d _ =>
        -- the gap in front of the word would stand in the first word
        have hd : p d = true := hleft d (by simp)
        simp [hinside₀ d (by simp)] at hd
  · rintro (⟨rfl, rfl, rfl⟩ | ⟨before, rfl, rfl, hw, hinside, hleft, hright⟩)
    · exact ⟨rfl, hw₀, hinside₀, (fun _ hc => nomatch hc), hrest⟩
    · refine ⟨by rw [List.append_assoc], hw, hinside, fun c hc => ?_, hright⟩
      rw [List.getLast?_append] at hc
      cases before with
      | nil =>
        -- the second word would begin where the first one ends
        obtain ⟨d, w, rfl⟩ := List.exists_cons_of_ne_nil hw
        have hd : p d = true := hrest d rfl
        simp [hinside d List.mem_cons_self] at hd
      | cons d before => exact hleft c (by simpa using hc)

/-- The runs of a text are what stands in it as a word. -/
theorem mem_runs_iff : w ∈ runs p cs ↔ ∃ before after, StandsIn p w cs before after := by
  induction cs using gaps_and_words_induct (p := p) with
  | nil => simp [runs, not_standsIn_nil]
  | gap c cs hc ih =>
    rw [runs_cons_of_gap hc, ih]
    simp only [standsIn_cons_gap hc]
    constructor
    · rintro ⟨before, after, h⟩
      exact ⟨_, after, before, rfl, h⟩
    · rintro ⟨-, after, before, -, h⟩
      exact ⟨before, after, h⟩
  | word w₀ rest hw₀ hinside hrest ih =>
    rw [runs_append_word hw₀ hinside hrest, List.mem_cons, ih]
    simp only [standsIn_word_append hw₀ hinside hrest, exists_or]
    refine or_congr (by simp) ?_
    constructor
    · rintro ⟨before, after, h⟩
      exact ⟨_, after, before, rfl, h⟩
    · rintro ⟨-, after, before, -, h⟩
      exact ⟨before, after, h⟩

/-! ## Longer texts -/

/-- A word that stands in a text that goes on either ends in the text itself, or reaches into what
was put behind it. -/
theorem StandsIn.cases_append {tail : List Char} (h : StandsIn p w (text ++ tail) before after) :
    (∃ after', after = after' ++ tail ∧ text = before ++ (w ++ after')) ∨
      ∃ reached, reached ≠ [] ∧ before ++ w = text ++ reached ∧ tail = reached ++ after := by
  have htext := h.text_eq
  rw [← List.append_assoc] at htext
  rcases List.append_eq_append_iff.1 htext with ⟨reached, hword, htail⟩ | ⟨l, htext, hafter⟩
  · cases reached with
    | nil =>
      refine .inl ⟨[], by simpa using htail.symm, ?_⟩
      rw [List.append_nil, ← List.append_nil text, hword]
    | cons c reached => exact .inr ⟨c :: reached, by simp, hword, htail⟩
  · exact .inl ⟨l, hafter, by rw [htext, List.append_assoc]⟩

/-- Gaps behind a text change none of its words. -/
theorem standsIn_append_gaps {gaps : List Char} (hgaps : ∀ c ∈ gaps, p c = true) :
    StandsIn p w (text ++ gaps) before after ↔
      ∃ after', after = after' ++ gaps ∧ StandsIn p w text before after' := by
  constructor
  · intro h
    rcases h.cases_append with ⟨after', rfl, htext⟩ | ⟨reached, hreached, hword, rfl⟩
    · refine ⟨after', rfl, htext, h.ne_nil, h.inside, h.left, fun c hc => h.right c ?_⟩
      rw [List.head?_append, Option.mem_def.1 hc]
      rfl
    · -- the word would share a character with the gaps
      obtain ⟨d, hd, hd'⟩ : ∃ d ∈ w, d ∈ reached := by
        rcases List.append_eq_append_iff.1 hword with ⟨l, -, rfl⟩ | ⟨l, -, rfl⟩
        · obtain ⟨d, reached, rfl⟩ := List.exists_cons_of_ne_nil hreached
          exact ⟨d, by simp, List.mem_cons_self⟩
        · obtain ⟨d, w, rfl⟩ := List.exists_cons_of_ne_nil h.ne_nil
          exact ⟨d, List.mem_cons_self, by simp⟩
      have hgap := hgaps d (List.mem_append_left after hd')
      rw [h.inside d hd] at hgap
      cases hgap
  · rintro ⟨after, rfl, htext, hw, hinside, hleft, hright⟩
    refine ⟨by simp [htext], hw, hinside, hleft, fun c hc => ?_⟩
    cases after with
    | nil => exact hgaps c (List.mem_of_head? hc)
    | cons d after => exact hright c hc

/-- What has no gaps goes on with the word in front of it. It leaves alone the words behind which
there is a gap, as far as words with another first character than its own are concerned. -/
theorem standsIn_append_solid {solid : List Char} {x : Char} (hx : x ∉ w)
    (hsolid : ∀ c ∈ x :: solid, p c = false) :
    StandsIn p w (text ++ x :: solid) before after ↔
      ∃ after', after = after' ++ x :: solid ∧ after' ≠ [] ∧ StandsIn p w text before after' := by
  constructor
  · intro h
    rcases h.cases_append with ⟨after', rfl, htext⟩ | ⟨reached, hreached, hword, htail⟩
    · have hne : after' ≠ [] := by
        rintro rfl
        have hgap := h.right x rfl
        rw [hsolid x List.mem_cons_self] at hgap
        cases hgap
      refine ⟨after', rfl, hne, htext, h.ne_nil, h.inside, h.left, fun c hc => h.right c ?_⟩
      rw [List.head?_append, Option.mem_def.1 hc]
      rfl
    · obtain ⟨d, reached, rfl⟩ := List.exists_cons_of_ne_nil hreached
      obtain ⟨rfl, rfl⟩ := List.cons.inj htail
      rcases List.append_eq_append_iff.1 hword with ⟨l, -, hw⟩ | ⟨l, rfl, hw⟩
      · exact absurd (hw ▸ List.mem_append_right l List.mem_cons_self) hx
      · cases l using List.reverseRecOn with
        | nil =>
          rw [List.nil_append] at hw
          exact absurd (hw ▸ List.mem_cons_self) hx
        | append_singleton l e _ =>
          -- the gap in front of the word would be inside of what has none
          have hgap : p e = true := h.left e (by simp)
          have hmem : e ∈ x :: reached := by simp [hw]
          rw [hsolid e (List.mem_append_left after hmem)] at hgap
          cases hgap
  · rintro ⟨after, rfl, hne, htext, hw, hinside, hleft, hright⟩
    obtain ⟨d, after, rfl⟩ := List.exists_cons_of_ne_nil hne
    exact ⟨by simp [htext], hw, hinside, hleft, hright⟩

/-! ## Words -/

/-- The name is a word of the value. -/
def Names (value name : String) : Prop :=
  ∃ before after, StandsIn isGap name.toList value.toList before after

theorem mem_words_iff {value name : String} : name ∈ words value ↔ Names value name := by
  rw [words, List.mem_map, Names, ← mem_runs_iff]
  constructor
  · rintro ⟨w, hw, rfl⟩
    rwa [String.toList_ofList]
  · exact fun h => ⟨_, h, String.ofList_toList⟩

end AtomicCss.Keyframes
