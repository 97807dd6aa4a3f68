import AtomicCss.CommandLine.Script
import AtomicCss.Proofs.Engine.Merging
import AtomicCss.Proofs.Extraction.Reaching

/-!
# Unknown shortcuts are reported

What is read of a call is merged, entered into the store and answered, and the answers to a
batch of calls are put together. An unknown shortcut comes through all of it: nothing that is
said later takes it away, and where it is met again it keeps its first place.

- `filterMap_unknown_merge`: the unknown names that merging leaves.
- `Engine.unknown_of_useStyles`: those of the answer to one call.
- `unknown_of_useCalls`: those of the answers to a batch.
- `compileCalls_reports_unknown`: a compilation reports what it has reached unanswered, and a
  check fails if there is any of it.
-/

namespace AtomicCss

open Reading

/-! ## Merging -/

theorem filterMap_unknown_pushNew (slots : List Slot) (name : String) :
    (pushNew slots (.unknown name)).filterMap Slot.unknown? =
      pushNew (slots.filterMap Slot.unknown?) name := by
  rw [pushNew, pushNew]
  simp only [Slot.mem_filterMap_unknown_iff]
  split
  · rfl
  · rw [List.filterMap_append]
    rfl

/-- An assignment takes no unknown name away, and brings none. -/
theorem filterMap_unknown_assignment (slots : List Slot) (a : Assignment) :
    ((Extracted.assignment a).enter slots).filterMap Slot.unknown? =
      slots.filterMap Slot.unknown? := by
  have hslot : a.slot?.toList.filterMap Slot.unknown? = [] := by
    cases hslot : a.slot? with
    | none => rfl
    | some slot =>
      obtain ⟨values, -, rfl⟩ := Option.map_eq_some_iff.1 hslot
      rfl
  rw [Extracted.enter, List.filterMap_append, hslot, List.append_nil, List.filterMap_filter]
  refine List.filterMap_congr fun slot _ => ?_
  cases slot with
  | unknown name => simp [Slot.key]
  | declaration d => simp [Slot.unknown?]

/-- Merging keeps every unknown name, once and where it first stood. -/
theorem filterMap_unknown_merge (parts : List Extracted) :
    (merge parts).filterMap Slot.unknown? = distinct (parts.filterMap Extracted.unknown?) := by
  induction parts using List.reverseRecOn with
  | nil => rfl
  | append_singleton parts p ih =>
    rw [merge_append_singleton, List.filterMap_append]
    cases p with
    | unknown name =>
      rw [Extracted.enter, filterMap_unknown_pushNew, ih]
      exact (distinct_append_singleton _ name).symm
    | assignment a =>
      rw [filterMap_unknown_assignment, ih]
      exact congrArg distinct (List.append_nil _).symm

/-! ## Calls -/

section

variable {σ : Type} {v : Vocabulary} {e e' : Engine σ} {b : Nat} {items : List StyleItem}
  {calls : List (List StyleItem)}

/-- The answer to a call lists the shortcuts that were reached unanswered. -/
theorem Engine.unknown_of_useStyles {o : UseOutcome} (he : e.Serves v)
    (h : useStyles b items e = some (.ok o, e')) :
    ∃ names, ReachesItems v.shortcut? items names ∧
      o.unknown = distinct (unanswered v.shortcut? names) := by
  rcases useStyles_eq_some.1 h with ⟨_, -, herr⟩ | ⟨parts, m, hread, ho, -⟩
  · cases herr
  obtain rfl := Except.ok.inj ho
  obtain ⟨-, c, hc⟩ := (tracks_extractAll items).answers (Alike.refl he.speaks) hread
  obtain ⟨names, hnames, hreported⟩ := Vocabulary.reaches_of_extractAll hc
  refine ⟨names, hnames, ?_⟩
  rw [addSlots_unknown, filterMap_unknown_merge, foldl_pushNew_distinct, hreported]
  rfl

theorem unknown_of_useCalls {outcomes : List UseOutcome} (he : e.Serves v)
    (h : useCalls b calls e = some (.ok outcomes, e')) :
    ∃ reached, List.Forall₂ (ReachesItems v.shortcut?) calls reached ∧
      outcomes.map UseOutcome.unknown =
        reached.map fun names => distinct (unanswered v.shortcut? names) := by
  induction calls generalizing e outcomes with
  | nil =>
    obtain ⟨hok, -⟩ := Prod.mk.inj (Option.some.inj h)
    obtain rfl := Except.ok.inj hok
    exact ⟨[], .nil, rfl⟩
  | cons items calls ih =>
    rcases useCalls_cons_eq_some.1 h with ⟨_, -, herr⟩ | ⟨o, e₁, rest, huse, hrest, hok⟩
    · cases herr
    cases rest with
    | error err => cases hok
    | ok rest =>
      obtain rfl := Except.ok.inj hok
      obtain ⟨names, hnames, hunknown⟩ := Engine.unknown_of_useStyles he huse
      obtain ⟨reached, hreached, hunknowns⟩ := ih (Engine.useStyles_ok he huse).1 hrest
      refine ⟨names :: reached, .cons hnames hreached, ?_⟩
      rw [List.map_cons, List.map_cons, hunknown, hunknowns]

end

/-! ## Compilations and checks -/

theorem unanswered_flatten (lookup? : String → Option (List StyleItem))
    (reached : List (List String)) :
    unanswered lookup? reached.flatten = reached.flatMap (unanswered lookup?) := by
  rw [unanswered, List.filter_flatten]
  rfl

theorem eraseDups_unanswered_eq_nil_iff {lookup? : String → Option (List StyleItem)}
    {names : List String} :
    (unanswered lookup? names).eraseDups = [] ↔ ∀ name ∈ names, lookup? name ≠ none := by
  rw [← distinct_eq_eraseDups, List.eq_nil_iff_forall_not_mem]
  simp only [mem_distinct, unanswered, List.mem_filter, Option.isNone_iff_eq_none, not_and]

namespace CommandLine

/-- A check of calls that are compiled fails if there is something to report. -/
theorem exists_script_check {b : Nat} {config : EngineConfig Unit} {calls : List (List StyleItem)}
    {c : Compilation} {warnings : List Warning}
    (h : compileCalls b config () calls = some (.ok (c, warnings))) (path : String) :
    ∃ script, Command.script b config path calls .check = some script ∧
      (script.failure = none ↔ c.unknown = []) := by
  refine ⟨(checkScript path c).after (warnings.map .warn), ?_, ?_⟩
  · rw [Command.script, compileScript, h]
    rfl
  · show (checkScript path c).failure = none ↔ _
    unfold checkScript
    split <;> next hempty => simpa using hempty

end CommandLine

/-- Unknown shortcuts are reported. If calls are compiled with the bundled plugins and any
pattern rules, each call reaches one list of shortcuts: those at the top, under keys, and in the
answers of other ones. The compilation reports those among them that no rule answers, each of
them once and in the order in which they are reached first; a check of the same calls succeeds
if there are none. -/
theorem compileCalls_reports_unknown {b : Nat} {draft : Draft}
    {selectorPatterns : Table String (PatternRule (List String))}
    {shortcutPatterns : Table String (PatternRule (List StyleItem))}
    {calls : List (List StyleItem)} {c : Compilation} {warnings : List Warning}
    (h : compileCalls b ⟨draft, [.coreWith selectorPatterns shortcutPatterns]⟩ () calls =
      some (.ok (c, warnings))) :
    ∃ (e₀ : Engine Unit) (rules : AliasRules (List StyleItem)) (reached : List (List String)),
      Engine.create ⟨draft, [.coreWith selectorPatterns shortcutPatterns]⟩ () =
        some (.ok (e₀, warnings)) ∧
      .shortcuts rules ∈ e₀.pipeline.plugins ∧
      (∀ listed, List.Forall₂ (ReachesItems rules.lookup?) calls listed ↔ listed = reached) ∧
      c.unknown = (unanswered rules.lookup? reached.flatten).eraseDups ∧
      ∀ path, ∃ script, CommandLine.Command.script b
          ⟨draft, [.coreWith selectorPatterns shortcutPatterns]⟩ path calls .check = some script ∧
        (script.failure = none ↔ ∀ name ∈ reached.flatten, rules.lookup? name ≠ none) := by
  rcases compileCalls_eq_some.1 h with ⟨_, -, herr⟩ | ⟨e₀, warnings', result, e, hcreate, huse, hok⟩
  · cases herr
  cases result with
  | error err => cases hok
  | ok outcomes =>
    obtain ⟨rfl, rfl⟩ := Prod.mk.inj (Except.ok.inj hok)
    obtain ⟨config, aliases, rules, declared, important, rfl, -⟩ := Engine.create_coreWith hcreate
    obtain ⟨reached, hreached, hunknowns⟩ := unknown_of_useCalls
      ⟨Engine.speaks_of_create hcreate, Engine.storeCanonical_of_create hcreate⟩ huse
    rw [Engine.vocabulary_bundled] at hreached hunknowns
    have hunknown : (Compilation.of outcomes e).unknown =
        (unanswered rules.lookup? reached.flatten).eraseDups := by
      rw [← distinct_eq_eraseDups, unanswered_flatten, ← distinct_flatMap_distinct]
      show distinct (outcomes.flatMap UseOutcome.unknown) = _
      rw [List.flatMap_def, hunknowns, ← List.flatMap_def]
    have hunique : Relator.RightUnique (ReachesItems rules.lookup?) :=
      fun _ _ _ => ReachesItems.unique
    refine ⟨_, rules, reached, hcreate, by simp [Pipeline.bundled], fun listed => ?_, hunknown,
      fun path => ?_⟩
    · exact ⟨fun hlisted => List.right_unique_forall₂' hunique hlisted hreached,
        fun heq => heq ▸ hreached⟩
    · obtain ⟨script, hscript, hfailure⟩ := CommandLine.exists_script_check h path
      exact ⟨script, hscript, hfailure.trans (hunknown ▸ eraseDups_unanswered_eq_nil_iff)⟩

/-- A shortcut for another one that nothing answers, and red text. -/
def cardShortcuts : AliasRules (List StyleItem) where
  statics := [("card", ⟨"card", "card",
    [.shortcut "inner", .definition [("color", .property (.scalar (.text "red")))]]⟩)]

/-- A configuration with this shortcut. -/
def cardDraft : Draft where
  extra := [("shortcuts", .array [.array [.string "card",
    .array [.string "inner", .object [("color", .string "red")]]]])]

/-- The new engine of this configuration. -/
def cardEngine : Engine Unit where
  config := { extra := cardDraft.extra }
  pipeline := ⟨Pipeline.bundled {} cardShortcuts [] false, ()⟩

/-- The shortcut is used twice, the second time under a selector behind a name that nothing
answers. Then the color is removed, and both names are used again. -/
def cardCalls : List (List StyleItem) :=
  [[.shortcut "card", .definition [("&:hover", .items [.shortcut "glow", .shortcut "card"])]],
    [.definition [("color", .property .removal)], .shortcut "glow", .shortcut "inner"]]

/-- Both names are reported, once each. -/
theorem compileCalls_reports_unknown_card :
    ∃ c script, compileCalls 4 ⟨cardDraft, [.coreWith [] []]⟩ () cardCalls = some (.ok (c, [])) ∧
      List.Forall₂ (ReachesItems cardShortcuts.lookup?) cardCalls
        [["card", "inner", "glow", "card", "inner"], ["glow", "inner"]] ∧
      c.unknown = ["inner", "glow"] ∧
      CommandLine.Command.script 4 ⟨cardDraft, [.coreWith [] []]⟩ "styles.json" cardCalls .check =
        some script ∧
      script.failure ≠ none := by
  have hcreate : Engine.create ⟨cardDraft, [.coreWith [] []]⟩ () =
      some (.ok (cardEngine, [])) := by rfl
  have hused : (useCalls 4 cardCalls cardEngine).map Prod.fst = some (.ok
      [⟨["inner", "a", "glow", "b"], ["inner", "glow"]⟩,
        ⟨["glow", "inner"], ["glow", "inner"]⟩]) := by rfl
  obtain ⟨⟨_, e⟩, huse, rfl⟩ := Option.map_eq_some_iff.1 hused
  have hcompiled := compileCalls_eq_some.2 (.inr ⟨_, _, _, e, hcreate, huse, rfl⟩)
  obtain ⟨e₀, rules, reached, hcreate', hrules, hreached, hunknown, hcheck⟩ :=
    compileCalls_reports_unknown hcompiled
  -- the rules are those of the configuration
  obtain ⟨rfl, -⟩ := Prod.mk.inj (Except.ok.inj (Option.some.inj (hcreate'.symm.trans hcreate)))
  obtain rfl : rules = cardShortcuts := by simpa [cardEngine, Pipeline.bundled] using hrules
  have hcard : cardShortcuts.lookup? "card" = some
      [.shortcut "inner", .definition [("color", .property (.scalar (.text "red")))]] := by rfl
  have hinner : cardShortcuts.lookup? "inner" = none := by rfl
  have hglow : cardShortcuts.lookup? "glow" = none := by rfl
  have hcolor (value : PropertyValue) : ReachesEntries cardShortcuts.lookup?
      (Table.erase [("color", .property value)] Important.flagKey) [] :=
    .cons (.property value) .nil
  have hanswer : ReachesItems cardShortcuts.lookup?
      [.shortcut "inner", .definition [("color", .property (.scalar (.text "red")))]] ["inner"] :=
    .unanswered hinner (.definition (hcolor _) .nil)
  have hcards : ReachesItems cardShortcuts.lookup? [.shortcut "card"] ["card", "inner"] :=
    .answered hcard hanswer .nil
  have hhover : ReachesEntries cardShortcuts.lookup? (Table.erase
      [("&:hover", .items [.shortcut "glow", .shortcut "card"])] Important.flagKey)
      ["glow", "card", "inner"] :=
    .cons (.items (.unanswered hglow hcards)) .nil
  have hlisted : List.Forall₂ (ReachesItems cardShortcuts.lookup?) cardCalls
      [["card", "inner", "glow", "card", "inner"], ["glow", "inner"]] :=
    .cons (.answered hcard hanswer (.definition hhover .nil))
      (.cons (.definition (hcolor _) (.unanswered hglow (.unanswered hinner .nil))) .nil)
  obtain rfl := (hreached _).1 hlisted
  obtain ⟨script, hscript, hfailure⟩ := hcheck "styles.json"
  refine ⟨_, script, hcompiled, hlisted, hunknown.trans (by rfl), hscript, fun hnone => ?_⟩
  exact hfailure.1 hnone "inner" (by simp) hinner

end AtomicCss
