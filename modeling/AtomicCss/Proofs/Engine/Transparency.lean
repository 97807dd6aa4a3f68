import AtomicCss.Proofs.Engine.Traces
import AtomicCss.Proofs.Extraction.Splicing

/-!
# Shortcuts are transparent

To an engine with the bundled plugins a shortcut is its items: a caller may write the
items that the rules answer in the place of the shortcut, among the items of a call or
anywhere inside of them, and is answered alike.

- `Engine.Replaces`: one list of items can be used and previewed in the place of another.
- `Engine.Run.shortcuts_transparent`: items with some shortcuts replaced can, and the
  other way round.
-/

namespace AtomicCss

open Reading AliasRules

variable {σ : Type}

/-- What sound rules answer is what the vocabulary unfolds. -/
theorem Vocabulary.covers_of_sound {v : Vocabulary} {rules : AliasRules (List StyleItem)}
    (h : Sound .shortcut StyleItem.shortcut? v.shortcut? rules) : v.Covers rules := by
  rintro name full ⟨b, r, hrun⟩
  obtain ⟨-, ⟨c, hc⟩, -⟩ := expand_done h (.nil _ _ _) hrun
  exact .of_unfold hc

namespace Engine

/-- The items `items'` can stand in the place of `items`: whatever is extracted from
these, answered to a use of these, or shown by a preview of these, is extracted from,
answered to and shown by the others, too, and the engines that are left behind cannot be
told apart. -/
structure Replaces (e : Engine σ) (items items' : List StyleItem) : Prop where
  reads : ∀ {b read m}, extractAll b items e = some (read, m) →
    ∃ c m', extractAll c items' e = some (read, m') ∧ LooksLike m m'
  uses : ∀ {b result m}, useStyles b items e = some (result, m) →
    ∃ c m', useStyles c items' e = some (result, m') ∧ LooksLike m m'
  shows : ∀ {b result m}, previewStyles b items e = some (result, m) →
    ∃ c m', previewStyles c items' e = some (result, m') ∧ LooksLike m m'

section

variable {v : Vocabulary} {e : Engine σ} {items items' : List StyleItem} (he : e.Speaks v)
  (hmeans : ∀ {r}, Means (fun b => v.extractAll b items) r →
    Means (fun b => v.extractAll b items') r)

include he hmeans

theorem exists_extractAll_alike {b : Nat} {read : Except Error (List Extracted)} {m : Engine σ}
    (h : extractAll b items e = some (read, m)) :
    ∃ c m', extractAll c items' e = some (read, m') ∧ Alike v m m' := by
  obtain ⟨hm, hgives⟩ := (tracks_extractAll items).answers (Alike.refl he) h
  obtain ⟨c, hc⟩ := hmeans hgives
  obtain ⟨m', hread⟩ := (tracks_extractAll items').follows (Alike.refl he) hc
  exact ⟨c, m', hread, hm.symm.trans (extractAll_traceless he hread)⟩

/-- Items that say no less can stand in the place of others. -/
theorem replaces_of_means : e.Replaces items items' where
  reads := by
    intro b read m h
    obtain ⟨c, m', hread, halike⟩ := exists_extractAll_alike he hmeans h
    exact ⟨c, m', hread, halike.looksLike⟩
  uses := by
    intro b result m h
    rcases useStyles_eq_some.1 h with ⟨err, hread, rfl⟩ | ⟨parts, m₁, hread, rfl, rfl⟩
    · obtain ⟨c, m', hread', halike⟩ := exists_extractAll_alike he hmeans hread
      exact ⟨c, m', useStyles_eq_some.2 (.inl ⟨err, hread', rfl⟩), halike.looksLike⟩
    · obtain ⟨c, m', hread', halike⟩ := exists_extractAll_alike he hmeans hread
      -- the same slots are entered into two engines that are alike
      obtain ⟨houtcome, halike'⟩ := addSlots_alike halike {} (merge parts)
      refine ⟨c, _, useStyles_eq_some.2 (.inr ⟨parts, m', hread', ?_, rfl⟩), halike'.looksLike⟩
      rw [houtcome]
  shows := by
    intro b result m h
    obtain ⟨read, hread, rfl⟩ := previewStyles_eq_some.1 h
    obtain ⟨c, m', hread', halike⟩ := exists_extractAll_alike he hmeans hread
    exact ⟨c, m', previewStyles_eq_some.2 ⟨read, hread', rfl⟩, halike.looksLike⟩

end

/-- Shortcuts are transparent. Let `e` be an engine that a new engine with the bundled
plugins and any pattern rules has become. Items in which some shortcuts, wherever they
stand, are replaced by what the rules of `e` answer to them, can be used and previewed in
the place of the items as they were, and the other way round. -/
theorem Run.shortcuts_transparent {draft : Draft} {shared : σ}
    {selectorPatterns : Table String (PatternRule (List String))}
    {shortcutPatterns : Table String (PatternRule (List StyleItem))} {e₀ e : Engine σ}
    {warnings : List Warning} {events : List (Event σ)}
    (hcreate : create ⟨draft, [.coreWith selectorPatterns shortcutPatterns]⟩ shared =
      some (.ok (e₀, warnings)))
    (hrun : Run e₀ events e) {rules : AliasRules (List StyleItem)}
    (hrules : .shortcuts rules ∈ e.pipeline.plugins) {items items' : List StyleItem}
    (hitems : SplicesItems rules items items') :
    e.Replaces items items' ∧ e.Replaces items' items := by
  have hself := Alike.refl (speaks_of_create hcreate)
  obtain ⟨_, -, halike⟩ := hrun.thin hself (Thins.refl events)
  have hspeaks : e.Speaks e₀.vocabulary := halike.left
  have hcovers : e₀.vocabulary.Covers rules := by
    obtain ⟨aliases, shortcuts, declared, hplugins, -, hsound⟩ := hspeaks.pipeline.plugins
    rw [hplugins] at hrules
    -- there is one plugin for shortcuts
    obtain rfl : rules = shortcuts := by simpa [Pipeline.bundled] using hrules
    exact Vocabulary.covers_of_sound hsound
  have hsame := hitems.same_extractAll hcovers
  exact ⟨replaces_of_means hspeaks hsame.means_iff.1, replaces_of_means hspeaks hsame.means_iff.2⟩

/-- After a failed preview, which has left an answer of its own behind, the shortcut for
red text is replaced twice: as an item of the call, and under a selector behind a name
that nothing answers. -/
theorem Run.shortcuts_transparent_red :
    let failed := failedEngine.event (.preview [.shortcut "loop"])
      (.error (.cyclic .shortcut ["loop", "loop"]))
    let listened := listeningEngine.event (.listen fun r log => log ++ [r]) (.ok .done)
    let rules := loopShortcuts.remember "loop" [.shortcut "loop"]
    let red : StyleItem := .definition [("color", .property (.scalar (.text "red")))]
    let items (red : StyleItem) : List StyleItem :=
      [red, .definition [("&:hover", .items [.shortcut "mystery", red])]]
    create ⟨loopDraft, [.coreWith [] []]⟩ [] = some (.ok (loopEngine, [])) ∧
      Run loopEngine [listened, failed] failedEngine ∧
      .shortcuts rules ∈ failedEngine.pipeline.plugins ∧
      SplicesItems rules (items (.shortcut "red")) (items red) ∧
      ∃ c m m', useStyles 4 (items (.shortcut "red")) failedEngine =
          some (.ok ⟨["x-a", "mystery", "x-b"], ["mystery"]⟩, m) ∧
        useStyles c (items red) failedEngine =
          some (.ok ⟨["x-a", "mystery", "x-b"], ["mystery"]⟩, m') ∧ LooksLike m m' := by
  intro failed listened rules red items
  have hcreate : create ⟨loopDraft, [.coreWith [] []]⟩ [] =
      some (.ok (loopEngine, [])) := by rfl
  have hlisten : listened.call.perform 0 loopEngine =
      some (listened.answer, listeningEngine) := rfl
  have hfail : Call.perform 2 (.preview [.shortcut "loop"]) listeningEngine =
      some (.error (.cyclic .shortcut ["loop", "loop"]), failedEngine) := by rfl
  have hrun : Run loopEngine [listened, failed] failedEngine :=
    .cons hlisten (.cons hfail (.nil _))
  have hrules : .shortcuts rules ∈ failedEngine.pipeline.plugins := .tail _ (.head _)
  have hred : rules.Answers "red" (some [red]) := ⟨2, _, by rfl⟩
  have hnested : SplicesItems rules [.shortcut "mystery", .shortcut "red"]
      [.shortcut "mystery", red] := .kept (.spliced hred .nil)
  have hitems : SplicesItems rules (items (.shortcut "red")) (items red) :=
    .spliced hred (.definition (.cons (.items hnested) .nil) .nil)
  have hused : (useStyles 4 (items (.shortcut "red")) failedEngine).map Prod.fst =
      some (.ok ⟨["x-a", "mystery", "x-b"], ["mystery"]⟩) := by rfl
  obtain ⟨⟨_, m⟩, huse, rfl⟩ := Option.map_eq_some_iff.1 hused
  obtain ⟨c, m', huse', hlooks⟩ :=
    (Run.shortcuts_transparent hcreate hrun hrules hitems).1.uses huse
  exact ⟨hcreate, hrun, hrules, hitems, c, m, m', huse, huse', hlooks⟩

end Engine

end AtomicCss
