import AtomicCss.Proofs.Keyframes.Emission
import AtomicCss.Proofs.Style.Importance
import Mathlib.Algebra.Order.BigOperators.Group.List
import Mathlib.Algebra.Order.Group.Nat

/-!
# Keyframes of animations that are important

A mark is put behind the text of a value. If a blank is put between them, as it is where the flag
of a definition is set, the mark is a word of its own, and the animation keeps its keyframes. A mark
that is put right behind a word goes on with the word: the keyframes are kept only if this
word is no name of keyframes, or if something else refers to them.

- `Important.MarkedBy`: a text made from a value by a mark behind it.
- `Keyframes.names_of_marks_iff`: the words that are left of the value.
- `Keyframes.Swallowed`: the word that is not left.
- `Keyframes.preflight_of_marks_iff`: when a store keeps its keyframes.
-/

namespace AtomicCss

open scoped List

namespace Important

/-- The text is made from the value by a mark. Between them there are blanks, or none, and there
may be blanks behind the mark. -/
def MarkedBy (blanks : List Char) (value marked : String) : Prop :=
  (∀ c ∈ blanks, Text.isBlank c = true) ∧
    ∃ behind, (∀ c ∈ behind, Text.isBlank c = true) ∧
      marked.toList = value.toList ++ blanks ++ mark ++ behind

/-- The texts that are taken as marked are those that are made by a mark. -/
theorem endsMarked_iff_exists_markedBy {marked : String} :
    EndsMarked marked ↔ ∃ blanks value, MarkedBy blanks value marked := by
  constructor
  · rintro ⟨front, behind, hmarked, hbehind⟩
    refine ⟨[], String.ofList front, by simp, behind, hbehind, ?_⟩
    rw [hmarked, String.toList_ofList, List.append_nil]
  · rintro ⟨blanks, value, -, behind, hbehind, hmarked⟩
    exact ⟨_, behind, hmarked, hbehind⟩

/-- A text that has no mark gets one, with a blank in front of it. -/
theorem markedBy_markText {value : String} (h : ¬ EndsMarked value) :
    MarkedBy [' '] value (markText value) := by
  refine ⟨List.forall_mem_singleton.2 (Text.isBlank_of_isWhitespace ' ' (by decide)), [],
    by simp, ?_⟩
  rw [markText_of_not_endsMarked h, String.toList_append, List.append_nil, List.append_assoc]
  rfl

end Important

/-- The declaration with other values. -/
def Declaration.withValues (d : Declaration) (values : List String) : Declaration :=
  { d with values := values }

/-- The declaration with each of its values marked. -/
def Declaration.marked (d : Declaration) : Declaration :=
  d.withValues (distinct (d.values.map Important.markText))

theorem Declaration.animates_withValues_iff {d : Declaration} {values : List String}
    {name : String} :
    (d.withValues values).Animates name ↔
      (d.property = "animation" ∨ d.property = "animation-name") ∧
        ∃ value ∈ values, Keyframes.Names value name :=
  Iff.rfl

namespace Keyframes

open Important

variable {value marked name : String} {blanks : List Char} {keyframes : Table String Frames}

/-! ## The words that are left -/

theorem isGap_of_isBlank {c : Char} (h : Text.isBlank c = true) : isGap c = true := by
  simp [isGap, h]

theorem not_gap_of_mem_mark {c : Char} (h : c ∈ mark) : isGap c = false := by
  have hall : (mark.all fun c => !isGap c) = true := by rfl
  simpa using List.all_eq_true.1 hall c h

/-- A mark leaves the words that have a gap behind them, be it in the value or in front of the
mark. -/
theorem names_of_marks_iff (hmarks : MarkedBy blanks value marked) (hname : '!' ∉ name.toList) :
    Names marked name ↔ ∃ before after,
      StandsIn isGap name.toList value.toList before after ∧ (blanks = [] → after ≠ []) := by
  obtain ⟨hblanks, behind, hbehind, hmarked⟩ := hmarks
  have hgaps : ∀ c ∈ blanks, isGap c = true := fun c hc => isGap_of_isBlank (hblanks c hc)
  have hgaps' : ∀ c ∈ behind, isGap c = true := fun c hc => isGap_of_isBlank (hbehind c hc)
  have hmark : mark = '!' :: "important".toList := by decide
  have hsolid : ∀ c ∈ '!' :: "important".toList, isGap c = false :=
    hmark ▸ fun c => not_gap_of_mem_mark
  rw [Names, hmarked, hmark]
  simp only [standsIn_append_gaps hgaps', standsIn_append_solid hname hsolid,
    standsIn_append_gaps hgaps]
  constructor
  · rintro ⟨before, -, -, -, -, -, hne, after, rfl, h⟩
    exact ⟨before, after, h, by rintro rfl; simpa using hne⟩
  · rintro ⟨before, after, h, hne⟩
    refine ⟨before, _, _, rfl, _, rfl, ?_, after, rfl, h⟩
    simpa [imp_iff_not_or, or_comm, Classical.not_and_iff_not_or_not] using hne

/-- The name is a word of the value, but only at the very end, where a mark without a blank goes
on with it. -/
def Swallowed (blanks : List Char) (value name : String) : Prop :=
  blanks = [] ∧ Names value name ∧
    ∀ before after, StandsIn isGap name.toList value.toList before after → after = []

/-- A mark takes away the name that it swallows, and leaves all others as they are. -/
theorem names_of_marks_iff_and (hmarks : MarkedBy blanks value marked) (hname : '!' ∉ name.toList) :
    Names marked name ↔ Names value name ∧ ¬ Swallowed blanks value name := by
  rw [names_of_marks_iff hmarks hname]
  constructor
  · rintro ⟨before, after, h, hne⟩
    exact ⟨⟨before, after, h⟩, fun ⟨hblanks, _, hend⟩ => hne hblanks (hend before after h)⟩
  · rintro ⟨⟨before, after, h⟩, hkept⟩
    by_contra hnone
    push Not at hnone
    have hblanks := (hnone before after h).1
    exact hkept ⟨hblanks, ⟨before, after, h⟩, fun before after h => (hnone before after h).2⟩

/-- The mark of a definition takes no name away. -/
theorem names_markText_iff (hname : '!' ∉ name.toList) :
    Names (markText value) name ↔ Names value name := by
  by_cases h : EndsMarked value
  · rw [markText_of_endsMarked h]
  · rw [names_of_marks_iff_and (markedBy_markText h) hname, and_iff_left]
    exact fun hswallowed => List.cons_ne_nil _ _ hswallowed.1

theorem animates_marked_iff {d : Declaration} (hname : '!' ∉ name.toList) :
    d.marked.Animates name ↔ d.Animates name := by
  rw [Declaration.marked, Declaration.animates_withValues_iff, Declaration.Animates]
  simp only [mem_distinct, List.mem_map, exists_exists_and_eq_and, names_markText_iff hname]

/-! ## What a store emits -/

/-- Some texts, none of them empty, make the same text as all of them only if they are all. -/
theorem eq_of_sublist_of_join_eq {texts texts' : List String} (h : texts' <+ texts)
    (hne : ∀ t ∈ texts, t ≠ "") (hjoin : String.join texts' = String.join texts) :
    texts' = texts := by
  induction h with
  | slnil => rfl
  | @cons texts' texts t h ih =>
    -- the text that is left out is missing
    have hlength := congrArg String.length hjoin
    have hle : (texts'.map String.length).sum ≤ (texts.map String.length).sum :=
      (h.map String.length).sum_le_sum fun _ _ => Nat.zero_le _
    have hpos : t.length ≠ 0 := fun hzero =>
      hne t List.mem_cons_self (String.length_eq_zero_iff.1 hzero)
    rw [String.length_join, String.length_join, List.map_cons, List.sum_cons] at hlength
    omega
  | cons_cons t h ih =>
    rw [String.join_cons, String.join_cons] at hjoin
    rw [ih (fun t ht => hne t (List.mem_cons_of_mem _ ht)) (String.append_right_inj _ |>.1 hjoin)]

theorem blockOf_ne_empty (name : String) (frames : Frames) : blockOf name frames ≠ "" := by
  intro h
  have hnil := congrArg String.toList h
  simp [blockOf] at hnil

variable {s : Store} {view view' : Snapshot} {d : Declaration} {others : List Declaration}
  {front back : List String}

/-- Of two stores of which one emits no more than the other, both have the same text only if they
emit the same. -/
theorem preflight_eq_iff_of_sublist
    (h : emitted keyframes view'.store <+ emitted keyframes view.store) :
    preflight keyframes view' = preflight keyframes view ↔
      emitted keyframes view'.store = emitted keyframes view.store := by
  rw [preflight_eq, preflight_eq]
  constructor
  · intro htext
    have hne : ∀ t ∈ (emitted keyframes view.store).map fun k => blockOf k.1 k.2, t ≠ "" := by
      intro t ht
      obtain ⟨k, -, rfl⟩ := List.mem_map.1 ht
      exact blockOf_ne_empty _ _
    have hblocks := eq_of_sublist_of_join_eq (h.map _) hne htext
    have hlength := congrArg List.length hblocks
    rw [List.length_map, List.length_map] at hlength
    exact h.eq_of_length hlength
  · exact fun heq => by rw [heq]

/-- In a store with an animation, a name is referred to by one value of the animation, by another
one of its values, or by another rule. -/
theorem exists_animates_iff (hanimation : d.property = "animation" ∨ d.property = "animation-name")
    (hstore : ∀ c, c ∈ s.declarations ↔ c = d.withValues (front ++ value :: back) ∨ c ∈ others) :
    (∃ c ∈ s.declarations, c.Animates name) ↔ Names value name ∨
      (d.withValues (front ++ back)).Animates name ∨ ∃ c ∈ others, c.Animates name := by
  simp only [hstore, or_and_right, exists_or, exists_eq_left, Declaration.animates_withValues_iff,
    hanimation, true_and, List.mem_append, List.mem_cons, or_assoc, or_left_comm]

/-- A mark behind an animation. Let two stores hold the same rules, except that a value of an
animation has a mark in one of them, with which it is taken as marked. A name is a word of the value
with the mark if it is a word of the value, unless the mark swallows it. So the store with the mark
emits no more keyframes, and it emits the same ones, in the same text, exactly if nothing is
swallowed to which no other value refers. Nothing is swallowed if there is a blank in front of the
mark; where all values of the rules of a store are marked as the flag of a definition marks them,
the text stays the same. -/
theorem preflight_of_marks_iff (hmarks : MarkedBy blanks value marked)
    (hnames : ∀ k ∈ keyframes, '!' ∉ k.1.toList)
    (hanimation : d.property = "animation" ∨ d.property = "animation-name")
    (hstore : ∀ c, c ∈ view.store.declarations ↔
      c = d.withValues (front ++ value :: back) ∨ c ∈ others)
    (hstore' : ∀ c, c ∈ view'.store.declarations ↔
      c = d.withValues (front ++ marked :: back) ∨ c ∈ others) :
    markText marked = marked ∧
    (∀ k ∈ keyframes, (d.withValues [marked]).Animates k.1 ↔
      (d.withValues [value]).Animates k.1 ∧ ¬ Swallowed blanks value k.1) ∧
    emitted keyframes view'.store <+ emitted keyframes view.store ∧
    (preflight keyframes view' = preflight keyframes view ↔
      ∀ k ∈ keyframes, Swallowed blanks value k.1 →
        (d.withValues (front ++ back)).Animates k.1 ∨ ∃ c ∈ others, c.Animates k.1) ∧
    (blanks ≠ [] → preflight keyframes view' = preflight keyframes view) ∧
    (∀ view'' : Snapshot,
      (∀ c, c ∈ view''.store.declarations ↔
        ∃ c' ∈ view.store.declarations, c'.marked = c) →
      preflight keyframes view'' = preflight keyframes view) := by
  have hsublist : emitted keyframes view'.store <+ emitted keyframes view.store := by
    refine emitted_sublist fun k hk h => ?_
    rw [exists_animates_iff hanimation hstore'] at h
    exact (exists_animates_iff hanimation hstore).2
      (h.imp_left fun h => ((names_of_marks_iff_and hmarks (hnames k hk)).1 h).1)
  have hexact : preflight keyframes view' = preflight keyframes view ↔
      ∀ k ∈ keyframes, Swallowed blanks value k.1 →
        (d.withValues (front ++ back)).Animates k.1 ∨ ∃ c ∈ others, c.Animates k.1 := by
    rw [preflight_eq_iff_of_sublist hsublist, emitted_eq_iff]
    refine forall₂_congr fun k hk => ?_
    rw [exists_animates_iff hanimation hstore', exists_animates_iff hanimation hstore,
      names_of_marks_iff_and hmarks (hnames k hk)]
    constructor
    · intro h hswallowed
      -- what is swallowed is a word of the value, so it was referred to
      exact (h.2 (.inl hswallowed.2.1)).resolve_left fun hkept => hkept.2 hswallowed
    · intro h
      refine ⟨Or.imp_left And.left, fun hrefers => ?_⟩
      by_cases hswallowed : Swallowed blanks value k.1
      · exact .inr (h hswallowed)
      · exact hrefers.imp_left fun hnames => ⟨hnames, hswallowed⟩
  refine ⟨markText_of_endsMarked (endsMarked_iff_exists_markedBy.2 ⟨_, _, hmarks⟩),
    fun k hk => ?_, hsublist, hexact,
    fun hne => hexact.2 fun k _ hswallowed => absurd hswallowed.1 hne, fun view'' hstore'' => ?_⟩
  · simp only [Declaration.animates_withValues_iff, List.mem_singleton, exists_eq_left, hanimation,
      true_and, names_of_marks_iff_and hmarks (hnames k hk)]
  · have heq : emitted keyframes view''.store = emitted keyframes view.store := by
      refine emitted_eq_iff.2 fun k hk => ?_
      simp only [hstore'', exists_exists_and_eq_and, animates_marked_iff (hnames k hk)]
    rw [preflight_eq, preflight_eq, heq]

theorem unmarked_fadeAndSpin : ∀ k ∈ fadeAndSpin, '!' ∉ k.1.toList := by
  simp only [fadeAndSpin, List.forall_mem_cons]
  exact ⟨by decide, by decide, List.forall_mem_nil _⟩

/-- The mark behind two names leaves the first one and swallows the second one, to which another
rule refers: both blocks are written. -/
theorem preflight_of_marks_fade_spin :
    let d : Declaration := ⟨[".$$"], "animation-name", []⟩
    let others := [d.withValues ["spin"]]
    let view (text : String) : Snapshot :=
      ⟨"", ".$$", Store.ofDeclarations "" (d.withValues [text] :: others)⟩
    MarkedBy [] "fade spin" "fade spin!important" ∧
    (∀ k ∈ fadeAndSpin, '!' ∉ k.1.toList) ∧
    (∀ text c, c ∈ (view text).store.declarations ↔
      c = d.withValues ([] ++ text :: []) ∨ c ∈ others) ∧
    ¬ Swallowed [] "fade spin" "fade" ∧
    preflight fadeAndSpin (view "fade spin!important") =
      preflight fadeAndSpin (view "fade spin") ∧
    preflight fadeAndSpin (view "fade spin") =
      "@keyframes fade\x7bfrom\x7bopacity:0\x7d\x7d"
        ++ "@keyframes spin\x7bto\x7bbackground-color:red;background-color:blue\x7d\x7d" := by
  intro d others view
  have hmarks : MarkedBy [] "fade spin" "fade spin!important" := ⟨by simp, [], by simp, by rfl⟩
  have hstore : ∀ text c, c ∈ (view text).store.declarations ↔
      c = d.withValues ([] ++ text :: []) ∨ c ∈ others := fun text c => by
    rw [Store.declarations_ofDeclarations, List.mem_cons, List.nil_append]
  obtain ⟨-, hleft, -, hexact, -, -⟩ := preflight_of_marks_iff hmarks unmarked_fadeAndSpin
    (.inr rfl) (hstore "fade spin") (hstore "fade spin!important")
  have hwords : words "fade spin!important" = ["fade", "spin!important"] := by rfl
  have hfade : Names "fade spin!important" "fade" := mem_words_iff.1 (hwords ▸ .head _)
  have hkept : ¬ Swallowed [] "fade spin" "fade" :=
    ((hleft _ (.head _)).1 ⟨.inr rfl, _, .head _, hfade⟩).2
  have hspin : Names "spin" "spin" := mem_words_iff.1 (by decide +kernel)
  refine ⟨hmarks, unmarked_fadeAndSpin, hstore, hkept, hexact.2 ?_, by rfl⟩
  simp only [fadeAndSpin, List.forall_mem_cons]
  exact ⟨fun h => absurd h hkept, fun _ => .inr ⟨_, .head _, .inr rfl, _, .head _, hspin⟩,
    List.forall_mem_nil _⟩

/-- A mark behind the name of keyframes, as it is taken for a marked text: an engine that uses it
writes no keyframes, which it does write for the name alone. -/
theorem keyframes_lost_spin :
    let spin : Declaration := ⟨[".$$"], "animation-name", ["spin"]⟩
    let marked : Declaration := ⟨[".$$"], "animation-name", ["spin!important"]⟩
    let item (text : String) : StyleItem :=
      .definition [("animationName", .property (.scalar (.text text)))]
    MarkedBy [] "spin" "spin!important" ∧ markText "spin!important" = "spin!important" ∧
    (∀ k ∈ fadeAndSpin, '!' ∉ k.1.toList) ∧
    Call.perform 1 (.use [item "spin"]) (Engine.animating []) =
      some (.ok (.outcome ⟨["a"], []⟩), Engine.animating [spin]) ∧
    (Engine.animating [spin]).renderStyles =
      "@keyframes spin\x7bto\x7bbackground-color:red;background-color:blue\x7d\x7d"
        ++ ".a\x7banimation-name:spin\x7d" ∧
    Call.perform 1 (.use [item "spin!important"]) (Engine.animating []) =
      some (.ok (.outcome ⟨["a"], []⟩), Engine.animating [marked]) ∧
    (Engine.animating [marked]).renderStyles = ".a\x7banimation-name:spin!important\x7d" := by
  intro spin marked item
  exact ⟨⟨by simp, [], by simp, by rfl⟩, by rfl, unmarked_fadeAndSpin, by rfl, by decide +kernel,
    by rfl, by decide +kernel⟩

end Keyframes

end AtomicCss
