import AtomicCss.Proofs.Text.Trimming
import AtomicCss.Selector.Groups
import Mathlib.Data.List.Basic

/-!
# Splitting is compositional

What a character means in a selector is told by the state in which the text in front of it
is left, so two texts that stand side by side are cut as the first one is, and then as the
second one is from the state in which the first one ends: the last piece of the first and
the first piece of the second grow together. Where the first text ends outside of quotes
and brackets, a comma between the two parts them for good. This holds of all texts, however
their quotes and brackets match.

- `Selector.Scan.run_of_idle`: blanks and other idle characters leave every state alone.
- `Selector.pieces_append`, `Selector.pieces_comma`: the pieces of joined texts.
- `Selector.Parted`: pieces that commas between them would part again; those of a text are
  (`parted_pieces`), and whoever joins such pieces gets them back (`Parted.pieces_join`).
- `Selector.IsGroups`: what the groups of a text are like (`isGroups_groupsOf`), and all that
  has to be known to get them back (`IsGroups.groupsOf_join`).
- `Selector.groupsOf_blanks_append`, `Selector.groupsOf_append_blanks`: blanks around a text
  do not change its groups.
- `Selector.groups_compositional`: the laws of groups.
-/

namespace AtomicCss.Selector

open Text

variable {s : Scan} {c : Char} {cs ds blanks p : List Char} {ps gs : List (List Char)}

/-! ## States -/

namespace Scan

/-- If a quote is open, it is one of the two quotes. -/
def WellQuoted (s : Scan) : Prop := ∀ q, s.quote = some q → q = '"' ∨ q = '\''

/-- The characters that change a state. -/
def delimiters : List Char := ['"', '\'', '(', '[', ')', ']']

theorem atTop_iff : s.atTop = true ↔ s = {} := by
  obtain ⟨depth, quote⟩ := s
  cases quote <;> simp [atTop]

theorem wellQuoted_start : WellQuoted {} := fun _ h => by cases h

theorem WellQuoted.step (hs : WellQuoted s) (c : Char) : WellQuoted (s.step c) := by
  intro q hq
  unfold Scan.step at hq
  split at hq
  · next open' hopen =>
    split at hq
    · cases hq
    · exact hs q hq
  · next hnone =>
    split at hq
    · next hc => exact Option.some.inj hq ▸ hc
    · -- brackets do not open a quote
      have hquote : s.quote = some q := by
        split at hq
        · exact hq
        · split at hq <;> exact hq
      rw [hnone] at hquote
      cases hquote

theorem WellQuoted.run (hs : WellQuoted s) (cs : List Char) : WellQuoted (s.run cs) := by
  induction cs generalizing s with
  | nil => exact hs
  | cons c cs ih => exact ih (hs.step c)

theorem run_append (s : Scan) (cs ds : List Char) : s.run (cs ++ ds) = (s.run cs).run ds :=
  List.foldl_append

theorem step_of_idle (hs : WellQuoted s) (hc : c ∉ delimiters) : s.step c = s := by
  obtain ⟨hdouble, hsingle, hround, hsquare, hround', hsquare'⟩ :
      c ≠ '"' ∧ c ≠ '\'' ∧ c ≠ '(' ∧ c ≠ '[' ∧ c ≠ ')' ∧ c ≠ ']' := by
    simpa [delimiters] using hc
  unfold step
  split
  · next q hq =>
    have hne : c ≠ q := by
      rintro rfl
      exact (hs c hq).elim hdouble hsingle
    rw [if_neg hne]
  · simp [hdouble, hsingle, hround, hsquare, hround', hsquare']

/-- Idle characters leave every state alone. -/
theorem run_of_idle (hs : WellQuoted s) (h : ∀ c ∈ cs, c ∉ delimiters) : s.run cs = s := by
  induction cs with
  | nil => rfl
  | cons c cs ih =>
    obtain ⟨hc, hcs⟩ := List.forall_mem_cons.1 h
    show (s.step c).run cs = s
    rw [step_of_idle hs hc, ih hcs]

theorem idle_of_isBlank (h : isBlank c = true) : c ∉ delimiters := by
  have hdelimiters : delimiters.all (fun d => !isBlank d) = true := by decide
  intro hc
  have hblank := List.all_eq_true.1 hdelimiters c hc
  simp [h] at hblank

theorem run_of_blanks (hs : WellQuoted s) (h : ∀ c ∈ blanks, isBlank c = true) :
    s.run blanks = s :=
  run_of_idle hs fun c hc => idle_of_isBlank (h c hc)

end Scan

/-! ## Pieces of joined texts -/

/-- The pieces of two texts side by side: the last one of the first and the first one of the
second grow together. -/
def weld : List (List Char) → List (List Char) → List (List Char)
  | [], qs => qs
  | [p], [] => [p]
  | [p], q :: qs => (p ++ q) :: qs
  | p :: p' :: ps, qs => p :: weld (p' :: ps) qs

theorem exists_pieces (s : Scan) (cs : List Char) : ∃ p ps, pieces s cs = p :: ps := by
  cases cs with
  | nil => exact ⟨[], [], rfl⟩
  | cons c cs =>
    rw [pieces]
    split
    · exact ⟨_, _, rfl⟩
    · cases pieces (s.step c) cs <;> exact ⟨_, _, rfl⟩

theorem weld_prepend {qs : List (List Char)} (c : Char) (p : List Char) (ps : List (List Char)) :
    weld (prepend c (p :: ps)) qs = prepend c (weld (p :: ps) qs) := by
  cases ps <;> cases qs <;> rfl

theorem weld_nil_cons {qs : List (List Char)} (p : List Char) (ps : List (List Char)) :
    weld (p :: ps) ([] :: qs) = p :: (ps ++ qs) := by
  induction ps generalizing p with
  | nil => simp [weld]
  | cons p' ps ih => rw [weld, ih, List.cons_append]

/-- The second text is cut from the state in which the first one ends. -/
theorem pieces_append (s : Scan) (cs ds : List Char) :
    pieces s (cs ++ ds) = weld (pieces s cs) (pieces (s.run cs) ds) := by
  induction cs generalizing s with
  | nil =>
    obtain ⟨q, qs, hq⟩ := exists_pieces s ds
    show pieces s ds = weld [[]] (pieces s ds)
    rw [hq]
    rfl
  | cons c cs ih =>
    obtain ⟨p, ps, hp⟩ := exists_pieces (s.step c) cs
    rw [List.cons_append, pieces, pieces]
    show _ = weld _ (pieces ((s.step c).run cs) ds)
    split
    · next hcut =>
      -- a comma outside of quotes and brackets leaves the state alone
      have hstep : s.step c = s := by
        rw [Scan.atTop_iff.1 hcut.2, hcut.1]
        rfl
      rw [hstep] at hp ⊢
      rw [ih, hp, weld]
    · rw [ih, hp, weld_prepend]

/-- A comma behind a text that ends outside of quotes and brackets parts it from what
follows. -/
theorem pieces_comma (h : (s.run cs).atTop = true) (ds : List Char) :
    pieces s (cs ++ ',' :: ds) = pieces s cs ++ pieces {} ds := by
  obtain ⟨p, ps, hp⟩ := exists_pieces s cs
  have htop := Scan.atTop_iff.1 h
  rw [pieces_append, htop, hp]
  exact weld_nil_cons p ps

/-- A text is one piece, or there is a first comma that parts it. -/
theorem pieces_eq_singleton_or (s : Scan) (cs : List Char) :
    pieces s cs = [cs] ∨ ∃ front back, cs = front ++ ',' :: back ∧
      pieces s front = [front] ∧ (s.run front).atTop = true := by
  induction cs generalizing s with
  | nil => exact .inl rfl
  | cons c cs ih =>
    by_cases hcut : c = ',' ∧ s.atTop
    · obtain ⟨rfl, htop⟩ := hcut
      exact .inr ⟨[], cs, rfl, rfl, htop⟩
    · rcases ih (s.step c) with hone | ⟨front, back, rfl, hfront, htop⟩
      · refine .inl ?_
        rw [pieces, if_neg hcut, hone]
        rfl
      · refine .inr ⟨c :: front, back, rfl, ?_, htop⟩
        rw [pieces, if_neg hcut, hfront]
        rfl

theorem pieces_of_notMem_comma (h : ',' ∉ cs) (s : Scan) : pieces s cs = [cs] := by
  rcases pieces_eq_singleton_or s cs with hone | ⟨front, back, rfl, -, -⟩
  · exact hone
  · exact absurd (by simp) h

/-- A text with a comma that parts it is not one piece. -/
theorem pieces_ne_singleton (h : (s.run cs).atTop = true) (ds p : List Char) :
    pieces s (cs ++ ',' :: ds) ≠ [p] := by
  obtain ⟨q, qs, hq⟩ := exists_pieces s cs
  obtain ⟨r, rs, hr⟩ := exists_pieces {} ds
  rw [pieces_comma h, hq, hr]
  simp

/-! ## Joining pieces -/

/-- The texts side by side, with commas between them. -/
def join (ps : List (List Char)) : List Char := [','].intercalate ps

theorem join_cons_cons (p q : List Char) (ps : List (List Char)) :
    join (p :: q :: ps) = p ++ ',' :: join (q :: ps) := by
  rw [join, List.intercalate_cons_cons, join, List.append_assoc, List.singleton_append]

/-- None of the texts is parted by itself, and each one that another one follows ends outside
of quotes and brackets. -/
structure Parted (ps : List (List Char)) : Prop where
  whole : ∀ p ∈ ps, pieces {} p = [p]
  closed : ps.Pairwise fun p _ => (Scan.run {} p).atTop = true

theorem Parted.tail (h : Parted (p :: ps)) : Parted ps :=
  ⟨fun q hq => h.whole q (List.mem_cons_of_mem p hq), (List.pairwise_cons.1 h.closed).2⟩

/-- The pieces of a text are parted, and the text is what joins them. -/
theorem parted_pieces (cs : List Char) : Parted (pieces {} cs) ∧ join (pieces {} cs) = cs := by
  induction hlength : cs.length using Nat.strongRecOn generalizing cs with
  | ind n ih =>
    rcases pieces_eq_singleton_or {} cs with hone | ⟨front, back, rfl, hfront, htop⟩
    · rw [hone]
      refine ⟨⟨?_, List.pairwise_singleton _ _⟩, by simp [join]⟩
      exact List.forall_mem_singleton.2 hone
    · obtain ⟨hparted, hjoin⟩ := ih back.length (by subst hlength; simp; omega) back rfl
      obtain ⟨q, qs, hq⟩ := exists_pieces {} back
      rw [pieces_comma htop, hfront, List.singleton_append]
      refine ⟨⟨List.forall_mem_cons.2 ⟨hfront, hparted.whole⟩,
        List.pairwise_cons.2 ⟨fun _ _ => htop, hparted.closed⟩⟩, ?_⟩
      rw [hq, join_cons_cons, ← hq, hjoin]

/-- Parted texts are the pieces of the text that joins them. -/
theorem Parted.pieces_join (h : Parted ps) (hne : ps ≠ []) : pieces {} (join ps) = ps := by
  induction ps with
  | nil => exact absurd rfl hne
  | cons p ps ih =>
    cases ps with
    | nil =>
      rw [join, List.intercalate_singleton]
      exact h.whole p List.mem_cons_self
    | cons q qs =>
      have htop := (List.pairwise_cons.1 h.closed).1 q List.mem_cons_self
      rw [join_cons_cons, pieces_comma htop, ih h.tail (by simp),
        h.whole p List.mem_cons_self, List.singleton_append]

theorem Parted.sublist {qs : List (List Char)} (h : Parted ps) (hqs : qs.Sublist ps) :
    Parted qs :=
  ⟨fun q hq => h.whole q (hqs.subset hq), h.closed.sublist hqs⟩

/-! ## Trimming -/

/-- Trimming does not change the state behind a text. -/
theorem run_trim (p : List Char) : Scan.run {} (trim p) = Scan.run {} p := by
  obtain ⟨front, back, hp, hfront, hback⟩ := exists_trim p
  conv_rhs => rw [hp]
  rw [Scan.run_append, Scan.run_append, Scan.run_of_blanks Scan.wellQuoted_start hfront,
    Scan.run_of_blanks (Scan.wellQuoted_start.run _) hback]

/-- A text that is not parted is not parted when it is trimmed, either. -/
theorem pieces_trim (h : pieces {} p = [p]) : pieces {} (trim p) = [trim p] := by
  rcases pieces_eq_singleton_or {} (trim p) with hone | ⟨front, back, htrim, -, htop⟩
  · exact hone
  · -- a comma that parts what is left would part the whole text
    obtain ⟨before, behind, hp, hbefore, -⟩ := exists_trim p
    have hrun : Scan.run {} (before ++ front) = Scan.run {} front := by
      rw [Scan.run_append, Scan.run_of_blanks Scan.wellQuoted_start hbefore]
    have htext : p = (before ++ front) ++ ',' :: (back ++ behind) := by
      rw [hp, htrim]
      simp
    rw [← hrun] at htop
    rw [htext] at h
    exact absurd h (pieces_ne_singleton htop _ _)

theorem Parted.map_trim (h : Parted ps) : Parted (ps.map trim) := by
  refine ⟨List.forall_mem_map.2 fun p hp => pieces_trim (h.whole p hp), ?_⟩
  refine List.pairwise_map.2 (h.closed.imp fun {p _} htop => ?_)
  rwa [run_trim]

/-! ## Groups -/

/-- The groups of some text: parted, trimmed and not empty. -/
structure IsGroups (gs : List (List Char)) : Prop where
  parted : Parted gs
  trimmed : ∀ g ∈ gs, Trimmed g
  ne_nil : ∀ g ∈ gs, g ≠ []

theorem isGroups_groupsOf (cs : List Char) : IsGroups (groupsOf cs) := by
  refine ⟨(parted_pieces cs).1.map_trim.sublist List.filter_sublist, fun g hg => ?_,
    fun g hg => ?_⟩
  · obtain ⟨p, -, rfl⟩ := List.mem_map.1 (List.mem_of_mem_filter hg)
    exact trimmed_trim p
  · simpa using List.of_mem_filter hg

/-- Groups are the groups of the text that joins them. -/
theorem IsGroups.groupsOf_join (h : IsGroups gs) : groupsOf (join gs) = gs := by
  cases gs with
  | nil => rfl
  | cons g gs =>
    have htrim : (g :: gs).map trim = g :: gs :=
      (List.map_congr_left fun g hg => trim_eq_self (h.trimmed g hg)).trans (List.map_id _)
    rw [groupsOf, h.parted.pieces_join (by simp), htrim, List.filter_eq_self]
    intro g hg
    simpa using h.ne_nil g hg

theorem IsGroups.sublist {hs : List (List Char)} (h : IsGroups gs) (hhs : hs.Sublist gs) :
    IsGroups hs :=
  ⟨h.parted.sublist hhs, fun g hg => h.trimmed g (hhs.subset hg),
    fun g hg => h.ne_nil g (hhs.subset hg)⟩

/-- A group is the only group of itself. -/
theorem groupsOf_of_mem {g : List Char} (hg : g ∈ groupsOf cs) : groupsOf g = [g] := by
  have hone := ((isGroups_groupsOf cs).sublist (List.singleton_sublist.2 hg)).groupsOf_join
  rwa [join, List.intercalate_singleton] at hone

/-- Behind a text that ends outside of quotes and brackets, a comma parts the groups. -/
theorem groupsOf_comma (h : (Scan.run {} cs).atTop = true) (ds : List Char) :
    groupsOf (cs ++ ',' :: ds) = groupsOf cs ++ groupsOf ds := by
  rw [groupsOf, pieces_comma h, List.map_append, List.filter_append, groupsOf, groupsOf]

/-! ## Blanks around texts -/

/-- Blanks in front of a text do not change its groups. -/
theorem groupsOf_blanks_append (h : ∀ c ∈ blanks, isBlank c = true)
    (cs : List Char) : groupsOf (blanks ++ cs) = groupsOf cs := by
  have hcomma : ',' ∉ blanks := fun hmem => absurd (h _ hmem) (by decide)
  obtain ⟨p, ps, hp⟩ := exists_pieces {} cs
  have hpieces : pieces {} (blanks ++ cs) = (blanks ++ p) :: ps := by
    rw [pieces_append, pieces_of_notMem_comma hcomma,
      Scan.run_of_blanks Scan.wellQuoted_start h, hp, weld]
  rw [groupsOf, hpieces, List.map_cons, trim_blanks_append h, groupsOf, hp, List.map_cons]

/-- Blanks behind a text do not change its groups. -/
theorem groupsOf_append_blanks (h : ∀ c ∈ blanks, isBlank c = true)
    (cs : List Char) : groupsOf (cs ++ blanks) = groupsOf cs := by
  have hcomma : ',' ∉ blanks := fun hmem => absurd (h _ hmem) (by decide)
  have hweld : ∀ p ps, (weld (p :: ps) [blanks]).map trim = (p :: ps).map trim := by
    intro p ps
    induction ps generalizing p with
    | nil => exact congrArg (fun t => [t]) (trim_append_blanks h p)
    | cons p' ps ih => exact congrArg (trim p :: ·) (ih p')
  obtain ⟨p, ps, hp⟩ := exists_pieces {} cs
  rw [groupsOf, pieces_append, pieces_of_notMem_comma hcomma, hp, hweld, groupsOf, hp]

/-- A text of commas and blanks has no groups. -/
theorem groupsOf_eq_nil (h : ∀ c ∈ cs, c = ',' ∨ isBlank c = true) : groupsOf cs = [] := by
  induction cs with
  | nil => rfl
  | cons c cs ih =>
    obtain ⟨hc, hcs⟩ := List.forall_mem_cons.1 h
    rcases hc with rfl | hc
    · have hstart : (Scan.run {} []).atTop = true := rfl
      exact (groupsOf_comma hstart cs).trans (ih hcs)
    · exact (groupsOf_blanks_append (List.forall_mem_singleton.2 hc) cs).trans (ih hcs)

/-! ## The laws -/

theorem map_toList_map_ofList (gs : List (List Char)) :
    (gs.map String.ofList).map String.toList = gs := by
  simp [Function.comp_def]

/-- The laws of groups. A group is not empty, is trimmed, and is its own only group. Groups
that are joined with commas are got back. And where a text ends outside of quotes and
brackets, the groups of it, a comma and any other text are its groups and then those of the
other text. -/
theorem groups_compositional (s t : String) :
    (∀ g ∈ groups s, g ≠ "" ∧ Trimmed g.toList ∧ groups g = [g]) ∧
    groups (",".intercalate (groups s)) = groups s ∧
    ((Scan.run {} s.toList).atTop = true → groups (s ++ "," ++ t) = groups s ++ groups t) := by
  have hgroups := isGroups_groupsOf s.toList
  have htoList : (groups s).map String.toList = groupsOf s.toList := map_toList_map_ofList _
  refine ⟨fun g hg => ?_, ?_, fun htop => ?_⟩
  · have hmem : g.toList ∈ groupsOf s.toList := htoList ▸ List.mem_map_of_mem hg
    refine ⟨fun hempty => hgroups.ne_nil _ hmem (by rw [hempty]; rfl),
      hgroups.trimmed _ hmem, ?_⟩
    rw [groups, groupsOf_of_mem hmem, List.map_singleton, String.ofList_toList]
  · rw [groups, String.toList_intercalate, htoList]
    exact congrArg _ hgroups.groupsOf_join
  · have htext : (s ++ "," ++ t).toList = s.toList ++ ',' :: t.toList := by simp
    rw [groups, htext, groupsOf_comma htop, List.map_append, groups, groups]

/-- A closing bracket without an opening one, brackets of two kinds, and a quote that is left
open behind the comma. -/
theorem groups_compositional_unbalanced :
    (Scan.run {} ")(a]".toList).atTop = true ∧
      groups (")(a]" ++ "," ++ "[\"b,c") = groups ")(a]" ++ groups "[\"b,c" := by
  have htop : (Scan.run {} ")(a]".toList).atTop = true := by decide
  exact ⟨htop, (groups_compositional ")(a]" "[\"b,c").2.2 htop⟩

end AtomicCss.Selector
