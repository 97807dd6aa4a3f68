import AtomicCss.Declaration
import AtomicCss.Selector.Chain
import Mathlib.Data.List.Infix

/-!
# Normal chains are anchored

The innermost selector of a normal chain holds a name marker whenever the default
selector does: it held a marker of either kind before host markers were replaced, or
it is the host marker that was added for want of one.

- `Selector.hasName_iff_isInfix`: a name marker is two dollar signs side by side.
- `Selector.EndsInName`: the innermost selector of a chain holds a name marker.
- `Selector.endsInName_normalize`: chains in normal form do, whatever they were before.
-/

namespace AtomicCss

namespace Selector

variable {host cs ds : List Char}

/-! ## Markers -/

theorem hasName_iff_isInfix : hasName cs = true ↔ ['$', '$'] <:+: cs := by
  fun_induction hasName cs with
  | case1 rest => simpa using (List.prefix_append ['$', '$'] rest).isInfix
  | case2 c rest hne ih =>
    rw [ih, List.infix_cons_iff]
    refine (or_iff_right ?_).symm
    -- the text does not start with a marker, so there is one behind its first character
    rintro ⟨tail, heq⟩
    obtain ⟨rfl, rfl⟩ := List.cons.inj heq
    exact hne tail rfl rfl
  | case3 => simp

theorem hasName_of_isInfix (h : hasName cs = true) (hcs : cs <:+: ds) : hasName ds = true :=
  hasName_iff_isInfix.2 ((hasName_iff_isInfix.1 h).trans hcs)

/-- Filling in the default selector goes from left to right. -/
theorem fillHost_isInfix (host : List Char) (h : cs <:+: ds) :
    fillHost host cs <:+: fillHost host ds := by
  obtain ⟨before, after, rfl⟩ := h
  exact ⟨fillHost host before, fillHost host after, by simp [fillHost]⟩

/-- A text with a marker of either kind has a name marker once the default selector,
which has one, is filled in. -/
theorem hasName_fillHost (hhost : hasName host = true) (h : isAnchored cs = true) :
    hasName (fillHost host cs) = true := by
  rcases Bool.or_eq_true_iff.1 h with hname | hmark
  · -- filling in leaves name markers alone
    have hfill : fillHost host ['$', '$'] = ['$', '$'] := rfl
    have hpart := fillHost_isInfix host (hasName_iff_isInfix.1 hname)
    rw [hfill] at hpart
    exact hasName_iff_isInfix.2 hpart
  · have hfill : fillHost host ['&'] = host := by simp [fillHost]
    have hpart := (List.singleton_infix_iff '&' cs).2 (List.contains_iff_mem.1 hmark)
    have hpart' := fillHost_isInfix host hpart
    rw [hfill] at hpart'
    exact hasName_of_isInfix hhost hpart'

/-- A text stands in the texts that are joined with it. -/
theorem isInfix_intercalate {sep : List Char} {parts : List (List Char)} (h : cs ∈ parts) :
    cs <:+: sep.intercalate parts := by
  induction parts with
  | nil => exact absurd h List.not_mem_nil
  | cons part parts ih =>
    cases parts with
    | nil =>
      obtain rfl := List.mem_singleton.1 h
      simp
    | cons next parts =>
      rw [List.intercalate_cons_cons]
      rcases List.mem_cons.1 h with rfl | h
      · exact ⟨[], sep ++ sep.intercalate (next :: parts), by simp⟩
      · exact (ih h).trans (List.suffix_append _ _).isInfix

/-- One anchored group is enough for the joined groups. -/
theorem hasName_joinGroups (hhost : hasName host = true) {groups : List (List Char)}
    (h : groups.any isAnchored = true) : hasName (joinGroups host groups) = true := by
  obtain ⟨group, hgroup, hanchored⟩ := List.any_eq_true.1 h
  exact hasName_of_isInfix (hasName_fillHost hhost hanchored)
    (isInfix_intercalate (List.mem_map_of_mem hgroup))

/-! ## Chains -/

/-- The innermost selector of the chain holds a name marker. -/
def EndsInName (chain : List String) : Prop :=
  ∃ s, chain.getLast? = some s ∧ hasName s.toList = true

/-- The innermost groups of a chain are anchored, by themselves or by the host marker
that is added. -/
theorem anchored_getLast? (chain : List String) :
    ∃ groups, (anchoredGroups chain).getLast? = some groups ∧
      groups.any isAnchored = true := by
  unfold anchoredGroups
  dsimp only
  split
  · next hanchored =>
    unfold innermostAnchored at hanchored
    split at hanchored
    · next groups hlast => exact ⟨groups, hlast, hanchored⟩
    · cases hanchored
  · exact ⟨[['&']], List.getLast?_concat, rfl⟩

/-- A chain in normal form ends in a name marker if the default selector has one. -/
theorem endsInName_normalize {defaultSelector : String}
    (hhost : hasName defaultSelector.toList = true) (chain : List String) :
    EndsInName (normalize chain defaultSelector) := by
  obtain ⟨groups, hlast, hanchored⟩ := anchored_getLast? chain
  refine ⟨String.ofList (joinGroups defaultSelector.toList groups), ?_, ?_⟩
  · rw [normalize, List.getLast?_map, hlast]
    rfl
  · rw [String.toList_ofList]
    exact hasName_joinGroups hhost hanchored

end Selector

/-- A declaration can be written exactly if its chain ends in a name marker. -/
theorem Declaration.isRenderable_iff {d : Declaration} :
    d.isRenderable = true ↔ Selector.EndsInName d.chain := by
  unfold isRenderable Selector.EndsInName
  cases d.chain.getLast? <;> simp

end AtomicCss
