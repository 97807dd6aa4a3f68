import AtomicCss.Proofs.Selector.Anchoring
import AtomicCss.Proofs.Selector.Splitting
import Mathlib.Logic.Relation

/-!
# Normal chains

A default selector without commas, quotes, brackets and host markers of its own means
nothing to the splitting of a selector, so filling it in and splitting can change places.
Therefore a chain in normal form is split into the groups that it was joined of, and is its
own normal form; and since a chain is normalised by its groups alone, whatever leaves these
alone leaves the normal form alone.

- `Selector.PlainHost`: a default selector that means nothing to splitting and trimming.
- `Selector.pieces_fillHost`, `Selector.groupsOf_fillHost`: pieces and groups of a text with
  the default selector filled in.
- `Selector.anchoredGroups_normalize`: the groups of a normal chain.
- `Selector.Respelling`: blank selectors put into a chain, and blanks put around a comma that
  parts groups.
- `Selector.normalize_reaches_normal_form`: what a normal form is like, and that all spellings
  of a chain have the same one.
-/

namespace AtomicCss.Selector

open Text

variable {s : Scan} {host cs : List Char} {gs : List (List Char)} {chain chain' : List String}

/-- A default selector with a name marker, and without any character that splitting,
filling in or trimming takes notice of. -/
structure PlainHost (host : List Char) : Prop where
  hasName : hasName host = true
  idle : ∀ c ∈ host, c ∉ Scan.delimiters
  comma : ',' ∉ host
  hostMark : '&' ∉ host
  trimmed : Trimmed host

theorem PlainHost.ne_nil (h : PlainHost host) : host ≠ [] := by
  rintro rfl
  cases h.hasName

/-! ## Filling in -/

theorem fillHost_cons_host (host cs : List Char) :
    fillHost host ('&' :: cs) = host ++ fillHost host cs := by
  rw [fillHost, List.flatMap_cons, if_pos rfl, fillHost]

theorem fillHost_cons {c : Char} (hc : c ≠ '&') (host cs : List Char) :
    fillHost host (c :: cs) = c :: fillHost host cs := by
  rw [fillHost, List.flatMap_cons, if_neg hc, List.singleton_append, fillHost]

theorem fillHost_append (host cs ds : List Char) :
    fillHost host (cs ++ ds) = fillHost host cs ++ fillHost host ds :=
  List.flatMap_append

theorem fillHost_join (host : List Char) (gs : List (List Char)) :
    fillHost host (join gs) = join (gs.map (fillHost host)) := by
  induction gs with
  | nil => rfl
  | cons g gs ih =>
    cases gs with
    | nil => simp [join]
    | cons g' gs =>
      rw [join_cons_cons, fillHost_append, fillHost_cons (by decide), ih]
      exact (join_cons_cons _ _ _).symm

theorem hostMark_notMem_fillHost (h : '&' ∉ host) (cs : List Char) : '&' ∉ fillHost host cs := by
  intro hmem
  obtain ⟨c, -, hc⟩ := List.mem_flatMap.1 hmem
  split at hc
  · exact h hc
  · next hne => exact hne (List.mem_singleton.1 hc).symm

theorem fillHost_of_notMem (h : '&' ∉ cs) (host : List Char) : fillHost host cs = cs := by
  induction cs with
  | nil => rfl
  | cons c cs ih =>
    obtain ⟨hc, hcs⟩ := List.ne_and_not_mem_of_not_mem_cons h
    rw [fillHost_cons hc.symm, ih hcs]

/-! ## Splitting and trimming what is filled in -/

/-- Filling in and cutting into pieces change places. -/
theorem pieces_fillHost (hidle : ∀ c ∈ host, c ∉ Scan.delimiters) (hcomma : ',' ∉ host)
    (hs : s.WellQuoted) (cs : List Char) :
    pieces s (fillHost host cs) = (pieces s cs).map (fillHost host) := by
  induction cs generalizing s with
  | nil => rfl
  | cons c cs ih =>
    by_cases hc : c = '&'
    · subst hc
      have hmark : s.step '&' = s := Scan.step_of_idle hs (by decide)
      obtain ⟨p, ps, hp⟩ := exists_pieces s cs
      rw [fillHost_cons_host, pieces_append, pieces_of_notMem_comma hcomma,
        Scan.run_of_idle hs hidle, ih hs, pieces, if_neg (by simp), hmark, hp]
      show (host ++ fillHost host p) :: _ = fillHost host ('&' :: p) :: _
      rw [fillHost_cons_host]
    · rw [fillHost_cons hc, pieces, pieces]
      split
      · rw [ih hs]
        rfl
      · obtain ⟨p, ps, hp⟩ := exists_pieces (s.step c) cs
        rw [ih (hs.step c), hp]
        show (c :: fillHost host p) :: _ = fillHost host (c :: p) :: _
        rw [fillHost_cons hc]

theorem dropWhile_fillHost (hne : host ≠ []) (hhead : ∀ c, host.head? = some c → isBlank c = false)
    (cs : List Char) :
    (fillHost host cs).dropWhile isBlank = fillHost host (cs.dropWhile isBlank) := by
  induction cs with
  | nil => rfl
  | cons c cs ih =>
    by_cases hc : c = '&'
    · subst hc
      have hfront : ∀ c, (host ++ fillHost host cs).head? = some c → isBlank c = false := by
        rw [List.head?_append_of_ne_nil _ hne]
        exact hhead
      rw [List.dropWhile_cons_of_neg (by decide), fillHost_cons_host, dropWhile_eq_self hfront]
    · rw [fillHost_cons hc, List.dropWhile_cons, List.dropWhile_cons]
      split
      · exact ih
      · rw [fillHost_cons hc]

theorem reverse_fillHost (host cs : List Char) :
    (fillHost host cs).reverse = fillHost host.reverse cs.reverse := by
  rw [fillHost, List.reverse_flatMap, fillHost]
  congr 1
  funext c
  show (if c = '&' then host else [c]).reverse = _
  split <;> rfl

/-- Filling in and trimming change places. -/
theorem trim_fillHost (hne : host ≠ []) (htrimmed : Trimmed host) (cs : List Char) :
    trim (fillHost host cs) = fillHost host (trim cs) := by
  have hlast : ∀ c, host.reverse.head? = some c → isBlank c = false := by
    rw [List.head?_reverse]
    exact htrimmed.last
  rw [trim, dropWhile_fillHost hne htrimmed.head, trimEnd, reverse_fillHost,
    dropWhile_fillHost (by simpa using hne) hlast, reverse_fillHost, List.reverse_reverse, trim,
    trimEnd]

/-- Filling in and taking the groups change places. -/
theorem groupsOf_fillHost (h : PlainHost host) (cs : List Char) :
    groupsOf (fillHost host cs) = (groupsOf cs).map (fillHost host) := by
  have hempty : ∀ g, (fillHost host g).isEmpty = g.isEmpty := by
    intro g
    cases g with
    | nil => rfl
    | cons c g =>
      by_cases hc : c = '&'
      · subst hc
        rw [fillHost_cons_host]
        simp [h.ne_nil]
      · rw [fillHost_cons hc]
        rfl
  have htrim : trim ∘ fillHost host = fillHost host ∘ trim :=
    funext fun g => trim_fillHost h.ne_nil h.trimmed g
  rw [groupsOf, pieces_fillHost h.idle h.comma Scan.wellQuoted_start, List.map_map, htrim,
    ← List.map_map, List.filter_map, groupsOf]
  congr 2
  funext g
  show (!(fillHost host g).isEmpty) = !g.isEmpty
  rw [hempty]

/-! ## The groups of a normal chain -/

/-- The groups of the selectors of a chain, without those that have none. -/
def fragments (chain : List String) : List (List (List Char)) :=
  (chain.map fun s => groupsOf s.toList).filter fun gs => !gs.isEmpty

theorem anchoredGroups_eq (chain : List String) :
    anchoredGroups chain = if innermostAnchored (fragments chain) then fragments chain
      else fragments chain ++ [[['&']]] := rfl

theorem anchoredGroups_ne_nil (chain : List String) : anchoredGroups chain ≠ [] := by
  obtain ⟨gs, hlast, -⟩ := anchored_getLast? chain
  intro hnil
  rw [hnil] at hlast
  cases hlast

/-- What is normalised are groups, and there are some of every selector. -/
theorem isGroups_of_mem (h : gs ∈ anchoredGroups chain) : IsGroups gs ∧ gs ≠ [] := by
  have hfragments : ∀ gs ∈ fragments chain, IsGroups gs ∧ gs ≠ [] := by
    intro gs hgs
    obtain ⟨s, -, rfl⟩ := List.mem_map.1 (List.mem_of_mem_filter hgs)
    exact ⟨isGroups_groupsOf _, by simpa using List.of_mem_filter hgs⟩
  rw [anchoredGroups_eq] at h
  split at h
  · exact hfragments gs h
  · rcases List.mem_append.1 h with h | h
    · exact hfragments gs h
    · obtain rfl := List.mem_singleton.1 h
      exact ⟨isGroups_groupsOf ['&'], by simp⟩

/-- Joined groups are split again, with the default selector in them. -/
theorem groupsOf_joinGroups (hhost : PlainHost host) (h : IsGroups gs) :
    groupsOf (joinGroups host gs) = gs.map (fillHost host) := by
  show groupsOf (join (gs.map (fillHost host))) = _
  rw [← fillHost_join, groupsOf_fillHost hhost, h.groupsOf_join]

theorem innermostAnchored_iff {frs : List (List (List Char))} :
    innermostAnchored frs = true ↔ ∃ gs, frs.getLast? = some gs ∧ gs.any isAnchored = true := by
  unfold innermostAnchored
  cases frs.getLast? <;> simp

/-- The groups of a normal chain are those of the chain, with the default selector in them. -/
theorem anchoredGroups_normalize {defaultSelector : String}
    (hhost : PlainHost defaultSelector.toList) (chain : List String) :
    anchoredGroups (normalize chain defaultSelector) =
      (anchoredGroups chain).map (List.map (fillHost defaultSelector.toList)) := by
  have hfragments : fragments (normalize chain defaultSelector) =
      (anchoredGroups chain).map (List.map (fillHost defaultSelector.toList)) := by
    have hsplit : ((normalize chain defaultSelector).map fun s => groupsOf s.toList) =
        (anchoredGroups chain).map (List.map (fillHost defaultSelector.toList)) := by
      rw [normalize, List.map_map]
      refine List.map_congr_left fun gs hgs => ?_
      show groupsOf (String.ofList (joinGroups _ gs)).toList = _
      rw [String.toList_ofList, groupsOf_joinGroups hhost (isGroups_of_mem hgs).1]
    rw [fragments, hsplit, List.filter_eq_self]
    intro fr hfr
    obtain ⟨gs, hgs, rfl⟩ := List.mem_map.1 hfr
    simpa using (isGroups_of_mem hgs).2
  -- the innermost selector holds a marker after the filling as it did before
  have hanchored : innermostAnchored (fragments (normalize chain defaultSelector)) = true := by
    obtain ⟨gs, hlast, hany⟩ := anchored_getLast? chain
    obtain ⟨g, hg, hmark⟩ := List.any_eq_true.1 hany
    refine innermostAnchored_iff.2 ⟨gs.map (fillHost defaultSelector.toList), ?_, ?_⟩
    · rw [hfragments, List.getLast?_map, hlast]
      rfl
    · refine List.any_eq_true.2 ⟨_, List.mem_map_of_mem hg, ?_⟩
      rw [isAnchored, hasName_fillHost hhost.hasName hmark, Bool.true_or]
  rw [anchoredGroups_eq, if_pos hanchored, hfragments]

/-- A normal chain is its own normal form. -/
theorem normalize_normalize {defaultSelector : String}
    (hhost : PlainHost defaultSelector.toList) (chain : List String) :
    normalize (normalize chain defaultSelector) defaultSelector =
      normalize chain defaultSelector := by
  conv_lhs => rw [normalize, anchoredGroups_normalize hhost, List.map_map]
  rw [normalize]
  refine List.map_congr_left fun gs _ => congrArg String.ofList ?_
  show joinGroups _ (gs.map (fillHost _)) = joinGroups _ gs
  rw [joinGroups, joinGroups, List.map_map]
  congr 2
  funext g
  exact fillHost_of_notMem (hostMark_notMem_fillHost hhost.hostMark g) _

/-! ## Respelled chains -/

/-- A chain is spelled in another way: a blank selector, which has commas and blanks only, is
put somewhere into it, or blanks are put around a comma that stands outside of quotes and
brackets. -/
inductive Respelling : List String → List String → Prop
  | blank (front back : List String) {selector : String}
      (h : ∀ c ∈ selector.toList, c = ',' ∨ isBlank c = true) :
      Respelling (front ++ back) (front ++ selector :: back)
  | around (front back : List String) {before behind blanks blanks' : String}
      (htop : (Scan.run {} before.toList).atTop = true)
      (hblanks : ∀ c ∈ blanks.toList, isBlank c = true)
      (hblanks' : ∀ c ∈ blanks'.toList, isBlank c = true) :
      Respelling (front ++ (before ++ "," ++ behind) :: back)
        (front ++ (before ++ blanks ++ "," ++ blanks' ++ behind) :: back)

/-- Another spelling has the same groups. -/
theorem Respelling.fragments_eq (h : Respelling chain chain') :
    fragments chain' = fragments chain := by
  cases h with
  | blank front back hselector =>
    simp [fragments, groupsOf_eq_nil hselector]
  | @around front back before behind blanks blanks' htop hblanks hblanks' =>
    have htop' : (Scan.run {} (before.toList ++ blanks.toList)).atTop = true := by
      rwa [Scan.run_append, Scan.run_of_blanks (Scan.wellQuoted_start.run _) hblanks]
    have hgroups : groupsOf (before ++ blanks ++ "," ++ blanks' ++ behind).toList =
        groupsOf (before ++ "," ++ behind).toList := by
      calc groupsOf (before ++ blanks ++ "," ++ blanks' ++ behind).toList
          = groupsOf ((before.toList ++ blanks.toList) ++
              ',' :: (blanks'.toList ++ behind.toList)) := by simp
        _ = groupsOf before.toList ++ groupsOf behind.toList := by
          rw [groupsOf_comma htop', groupsOf_append_blanks hblanks,
            groupsOf_blanks_append hblanks']
        _ = groupsOf (before.toList ++ ',' :: behind.toList) := (groupsOf_comma htop _).symm
        _ = groupsOf (before ++ "," ++ behind).toList := by simp
    simp only [fragments, List.map_append, List.map_cons, hgroups]

/-- However a chain is spelled, its normal form is the same. -/
theorem normalize_respelled (h : Relation.EqvGen Respelling chain chain')
    (defaultSelector : String) :
    normalize chain' defaultSelector = normalize chain defaultSelector := by
  have hfragments : fragments chain' = fragments chain := by
    induction h with
    | rel _ _ h => exact h.fragments_eq
    | refl => rfl
    | symm _ _ _ ih => exact ih.symm
    | trans _ _ _ _ _ ih ih' => exact ih'.trans ih
  rw [normalize, anchoredGroups_eq, hfragments, ← anchoredGroups_eq, normalize]

/-- Normalising reaches a normal form. With a plain default selector, a normal chain has a
selector, no selector of it has a host marker, and each one is what its own groups are joined
to; it is its own normal form; and it is the normal form of every other spelling of the
chain. -/
theorem normalize_reaches_normal_form {defaultSelector : String}
    (hhost : PlainHost defaultSelector.toList) (chain : List String) :
    normalize chain defaultSelector ≠ [] ∧
    (∀ selector ∈ normalize chain defaultSelector,
      '&' ∉ selector.toList ∧ ",".intercalate (groups selector) = selector) ∧
    normalize (normalize chain defaultSelector) defaultSelector =
      normalize chain defaultSelector ∧
    ∀ chain', Relation.EqvGen Respelling chain chain' →
      normalize chain' defaultSelector = normalize chain defaultSelector := by
  refine ⟨?_, fun selector hselector => ?_, normalize_normalize hhost chain,
    fun chain' h => normalize_respelled h defaultSelector⟩
  · rw [normalize, ne_eq, List.map_eq_nil_iff]
    exact anchoredGroups_ne_nil chain
  · obtain ⟨gs, hgs, rfl⟩ := List.mem_map.1 hselector
    have hjoin : joinGroups defaultSelector.toList gs =
        fillHost defaultSelector.toList (join gs) := (fillHost_join _ gs).symm
    constructor
    · rw [String.toList_ofList, hjoin]
      exact hostMark_notMem_fillHost hhost.hostMark _
    · have hgroups : groups (String.ofList (joinGroups defaultSelector.toList gs)) =
          (gs.map (fillHost defaultSelector.toList)).map String.ofList := by
        rw [groups, String.toList_ofList, groupsOf_joinGroups hhost (isGroups_of_mem hgs).1]
      rw [← String.toList_inj, String.toList_intercalate, hgroups, map_toList_map_ofList]
      exact String.toList_ofList.symm

/-- Blanks around a comma and blank selectors do not keep two chains from having one normal
form. -/
theorem normalize_reaches_normal_form_focus :
    PlainHost ".$$".toList ∧
    Relation.EqvGen Respelling ["&:hover,&:focus"] ["&:hover , &:focus", " ,"] ∧
    normalize ["&:hover , &:focus", " ,"] ".$$" = normalize ["&:hover,&:focus"] ".$$" := by
  have hhost : PlainHost ".$$".toList := by
    refine ⟨by decide, ?_, by decide, by decide, trimmed_iff.2 (by decide)⟩
    show ∀ c ∈ ['.', '$', '$'], c ∉ Scan.delimiters
    simp [Scan.delimiters]
  have hrespelled : Relation.EqvGen Respelling ["&:hover,&:focus"] ["&:hover , &:focus", " ,"] := by
    have hblank : ∀ c ∈ " ".toList, isBlank c = true := List.all_eq_true.1 (by decide)
    refine .trans _ ["&:hover , &:focus"] _ (.rel _ _ ?_) (.rel _ _ ?_)
    · exact @Respelling.around [] [] "&:hover" "&:focus" " " " " (by decide) hblank hblank
    · refine @Respelling.blank ["&:hover , &:focus"] [] " ," ?_
      exact List.forall_mem_cons.2 ⟨.inr (by decide), List.forall_mem_singleton.2 (.inl rfl)⟩
  exact ⟨hhost, hrespelled, (normalize_reaches_normal_form hhost _).2.2.2 _ hrespelled⟩

end AtomicCss.Selector
