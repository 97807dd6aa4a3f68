import AtomicCss.Proofs.Engine.Naming
import AtomicCss.Proofs.Selector.Anchoring
import AtomicCss.Proofs.Stylesheet

/-!
# Every stored rule is rendered

Where the default selector holds a name marker, the chain of every assignment that is
extracted ends in one, whatever selectors the plugins have put into it. So every rule
of the store can be written, and the stylesheet shows its declaration within its chain.

- `Extraction.anchored_definition`: what a definition says is anchored.
- `exists_assignment_of_mem_merge`: a merged declaration was assigned.
- `Engine.Anchored`: an engine that has seen anchored assignments only, which calls
  preserve.
- `Engine.Run.rules_rendered`: all rules are in the stylesheet, under the names that
  uses have answered with.
-/

namespace AtomicCss

open Selector

variable {σ : Type}

/-- An assignment whose chain ends in a name marker. An unknown name has no chain. -/
def Extracted.Anchored : Extracted → Prop
  | .assignment a => EndsInName a.chain
  | .unknown _ => True

/-! ## Extraction -/

namespace Extraction

variable {deeper : List String → StyleDefinition → Walk (Pipeline σ) (List Extracted)} {b : Nat}

/-- Items say what the definitions say that they stand for. -/
theorem anchored_itemsWith
    (h : ∀ chain d, Walk.Ensures (fun _ => True) (deeper chain d)
      fun parts => ∀ x ∈ parts, x.Anchored) (chain : List String) (items : List StyleItem) :
    Walk.Ensures (fun _ => True) (itemsWith b deeper chain items)
      fun parts => ∀ x ∈ parts, x.Anchored := by
  refine Walk.ensures_bind (Walk.ensures_trivial _) fun items _ => ?_
  refine Walk.ensures_collect_forall (fun item => ?_) items
  cases item with
  | shortcut name => exact Walk.ensures_pure fun x hx => List.mem_singleton.1 hx ▸ trivial
  | definition d => exact h chain d

/-- A property is assigned to the chain of its definition, and what is nested is anchored on its
own. -/
theorem anchored_entryWith
    (h : ∀ chain d, Walk.Ensures (fun _ => True) (deeper chain d)
      fun parts => ∀ x ∈ parts, x.Anchored) (chain : List String) {selectors : List String}
    (hselectors : EndsInName selectors) (entry : String × StyleValue) :
    Walk.Ensures (fun _ => True) (entryWith b deeper chain selectors entry)
      fun parts => ∀ x ∈ parts, x.Anchored := by
  obtain ⟨key, value⟩ := entry
  cases value with
  | property value => exact Walk.ensures_pure fun x hx => List.mem_singleton.1 hx ▸ hselectors
  | nested d => exact h _ d
  | items items => exact anchored_itemsWith h _ items

/-- What a definition says is anchored, because its selectors are normalized after the
plugins have replaced them. -/
theorem anchored_definition {host : String} (hhost : hasName host.toList = true)
    (chain : List String) (d : StyleDefinition) :
    Walk.Ensures (fun _ => True) (definition (σ := σ) host b chain d)
      fun parts => ∀ x ∈ parts, x.Anchored := by
  induction b generalizing chain d with
  | zero => exact Walk.ensures_unfinished
  | succ b ih =>
    refine Walk.ensures_bind (Walk.ensures_trivial _) fun replaced _ => ?_
    refine Walk.ensures_bind (Walk.ensures_trivial _) fun definitions _ => ?_
    refine Walk.ensures_collect_forall (fun d => Walk.ensures_collect_forall ?_ d) definitions
    exact anchored_entryWith ih chain (endsInName_normalize hhost replaced)

end Extraction

/-! ## Slots -/

/-- One step of merging adds no declaration but that of the assignment. -/
theorem declaration_mem_mergeStep {slots : Table SlotKey Slot} {x : Extracted} {d : Declaration}
    (h : .declaration d ∈ (mergeStep slots x).values) :
    x = .assignment ⟨d.chain, d.property, some d.values⟩ ∨ .declaration d ∈ slots.values := by
  cases x with
  | unknown name =>
    rw [mergeStep] at h
    split at h
    · exact .inr h
    · rcases Table.mem_values_of_insert h with heq | h
      · cases heq
      · exact .inr h
  | assignment a =>
    have hothers {slot : Slot}
        (h : slot ∈ (Table.erase slots (.target a.chain a.property)).values) :
        slot ∈ slots.values := ((Table.erase_sublist slots _).map Prod.snd).subset h
    obtain ⟨chain, property, _ | values⟩ := a
    · exact .inr (hothers h)
    · rcases Table.mem_values_of_insert h with heq | h
      · obtain rfl := Slot.declaration.inj heq
        exact .inl rfl
      · exact .inr (hothers h)

/-- A declaration that is left after merging was assigned. -/
theorem exists_assignment_of_mem_merge {parts : List Extracted} {d : Declaration}
    (h : .declaration d ∈ merge parts) :
    .assignment ⟨d.chain, d.property, some d.values⟩ ∈ parts := by
  have hfoldl (slots : Table SlotKey Slot) :
      .declaration d ∈ (parts.foldl mergeStep slots).values →
        .assignment ⟨d.chain, d.property, some d.values⟩ ∈ parts ∨
          .declaration d ∈ slots.values := by
    clear h
    induction parts generalizing slots with
    | nil => exact .inr
    | cons x parts ih =>
      intro h
      rcases ih (mergeStep slots x) h with h | h
      · exact .inl (List.mem_cons_of_mem x h)
      · exact (declaration_mem_mergeStep h).imp_left fun heq => List.mem_cons.2 (.inl heq.symm)
  exact (hfoldl [] h).resolve_right List.not_mem_nil

namespace Engine

/-- The default selector holds a name marker, the kept shortcuts say what is anchored,
and all rules can be written. -/
structure Anchored (e : Engine σ) : Prop where
  host : hasName e.config.defaultSelector.toList = true
  kept : ∀ {name parts}, Table.get? e.shortcuts name = some parts → ∀ x ∈ parts, x.Anchored
  rules : ∀ r ∈ e.store.rules, r.declaration.isRenderable = true

/-! ## Reading items -/

/-- An engine may keep what an anchored shortcut says. -/
theorem Anchored.keep {e : Engine σ} (he : e.Anchored) {name : String} {parts : List Extracted}
    (hparts : ∀ x ∈ parts, x.Anchored) :
    ({ e with shortcuts := Table.insert e.shortcuts name parts } : Engine σ).Anchored := by
  have hkept {name' parts'} (hget : Table.get? (Table.insert e.shortcuts name parts) name' =
      some parts') : ∀ x ∈ parts', x.Anchored :=
    Table.forall_get?_insert (p := fun _ parts' => ∀ x ∈ parts', x.Anchored) hparts he.kept hget
  exact ⟨he.host, hkept, he.rules⟩

/-- Walks on the pipeline touch nothing that has to be anchored. -/
theorem anchored_onPipeline {α : Type} {w : Walk (Pipeline σ) α} {Q : α → Prop}
    (h : Walk.Ensures (fun _ => True) w Q) : Walk.Ensures Anchored (onPipeline w) Q :=
  Walk.ensures_within (fun _ _ => trivial) (fun _ _ he _ => ⟨he.host, he.kept, he.rules⟩) h

/-- What an item says is anchored, be it read now or kept from before. -/
theorem anchored_extractItem (b : Nat) (item : StyleItem) :
    Walk.Ensures (Anchored (σ := σ)) (extractItem b item)
      fun parts => ∀ x ∈ parts, x.Anchored := by
  cases item with
  | definition d =>
    refine Walk.ensures_bind Walk.ensures_get fun e he => ?_
    exact anchored_onPipeline (Extraction.anchored_definition he.host [] d)
  | shortcut name =>
    refine Walk.ensures_bind Walk.ensures_get fun e he => ?_
    cases hget : Table.get? e.shortcuts name with
    | some parts => exact Walk.ensures_pure (he.kept hget)
    | none =>
      have hitems := Extraction.anchored_itemsWith (σ := σ) (b := b)
        (Extraction.anchored_definition (b := b) he.host) [] [.shortcut name]
      refine Walk.ensures_bind (anchored_onPipeline hitems) fun parts hparts => ?_
      exact Walk.ensures_bind (Walk.ensures_modify fun e he => he.keep hparts) fun _ _ =>
        Walk.ensures_pure hparts

theorem anchored_extractAll (b : Nat) (items : List StyleItem) :
    Walk.Ensures (Anchored (σ := σ)) (extractAll b items)
      fun parts => ∀ x ∈ parts, x.Anchored :=
  Walk.ensures_collect_forall (anchored_extractItem b) items

/-! ## Entering declarations -/

theorem Anchored.announce {e : Engine σ} (he : e.Anchored) (r : AtomicRule) :
    (e.announce r).Anchored := ⟨he.host, he.kept, he.rules⟩

end Engine

/-- Interning a declaration adds no rule but its own. -/
theorem Store.mem_rules_of_intern {s : Store} {d : Declaration} {namePrefix : String}
    {r : AtomicRule} (h : r ∈ (s.intern d namePrefix).2.rules) :
    r.declaration = d ∨ r ∈ s.rules := by
  rw [intern] at h
  split at h
  · exact .inr h
  · exact (Table.mem_values_of_insert h).imp_left (congrArg AtomicRule.declaration)

namespace Engine

/-- Entering a declaration keeps an engine anchored if its chain ends in a marker. -/
theorem Anchored.addDeclaration {e : Engine σ} (he : e.Anchored) {d : Declaration}
    (hd : EndsInName d.chain) : (e.addDeclaration d).2.Anchored := by
  have hrules : ({ e with store := (e.store.intern d e.config.namePrefix).2 } :
      Engine σ).Anchored := by
    refine ⟨he.host, he.kept, fun r hr => ?_⟩
    rcases Store.mem_rules_of_intern hr with rfl | hr
    · exact Declaration.isRenderable_iff.2 hd
    · exact he.rules r hr
  rw [addDeclaration_eq]
  dsimp only
  split
  · exact hrules.announce _
  · exact hrules

/-- Entering slots keeps an engine anchored if every chain in them ends in a marker. -/
theorem Anchored.addSlots {slots : List Slot}
    (hslots : ∀ d, .declaration d ∈ slots → EndsInName d.chain) :
    ∀ {e : Engine σ} {o : UseOutcome}, e.Anchored → (e.addSlots o slots).2.Anchored := by
  induction slots with
  | nil => exact fun he => he
  | cons slot slots ih =>
    have hrest (d : Declaration) (hd : .declaration d ∈ slots) : EndsInName d.chain :=
      hslots d (List.mem_cons_of_mem slot hd)
    intro e o he
    cases slot with
    | unknown name => exact ih hrest he
    | declaration d => exact ih hrest (he.addDeclaration (hslots d List.mem_cons_self))

/-! ## Calls and runs -/

/-- A use enters only declarations that were assigned, so the engine stays anchored. -/
theorem Anchored.useStyles {b : Nat} {items : List StyleItem} {e e' : Engine σ}
    {r : Except Error UseOutcome} (he : e.Anchored) (h : useStyles b items e = some (r, e')) :
    e'.Anchored := by
  rcases useStyles_eq_some.1 h with ⟨err, hread, -⟩ | ⟨parts, e₁, hread, -, rfl⟩
  · exact (anchored_extractAll b items _ _ _ he hread).1
  · obtain ⟨he₁, hparts⟩ := anchored_extractAll b items _ _ _ he hread
    refine he₁.addSlots fun d hd => ?_
    -- the declaration was assigned by an anchored part
    exact hparts parts rfl _ (exists_assignment_of_mem_merge hd)

/-- Every call keeps an engine anchored. -/
theorem Anchored.perform {b : Nat} {c : Call σ} {e e' : Engine σ} {answer : Except Error Answer}
    (he : e.Anchored) (h : c.perform b e = some (answer, e')) : e'.Anchored := by
  have hcall := perform_eq_some.1 h
  cases c with
  | use items =>
    obtain ⟨r, huse, -⟩ := hcall
    exact he.useStyles huse
  | preview items =>
    obtain ⟨r, hpreview, -⟩ := hcall
    obtain ⟨read, hread, -⟩ := previewStyles_eq_some.1 hpreview
    exact (anchored_extractAll b items _ _ _ he hread).1
  | render =>
    obtain ⟨-, rfl⟩ := hcall
    exact he
  | listen listener =>
    obtain ⟨-, rfl⟩ := hcall
    exact ⟨he.host, he.kept, he.rules⟩

/-- So does every run. -/
theorem Run.anchored {e e' : Engine σ} {events : List (Event σ)} (h : Run e events e')
    (he : e.Anchored) : e'.Anchored := h.invariant Anchored.perform he

/-- A new engine is anchored, as it has neither kept shortcuts nor rules. -/
theorem anchored_of_create {config : EngineConfig σ} {shared : σ} {e : Engine σ}
    {warnings : List Warning} (h : create config shared = some (.ok (e, warnings)))
    (hhost : hasName e.config.defaultSelector.toList = true) : e.Anchored := by
  obtain ⟨settled, pipeline, -, rfl⟩ := create_eq_some h
  exact ⟨hhost, fun hget => (nomatch hget), fun r hr => (nomatch hr)⟩

/-- The name in the place of a slot is the name of the slot. -/
theorem nameIn?_of_mem_zip {s : Store} {slots : List Slot} {names : List String}
    (h : names.map some = slots.map (Slot.nameIn? s)) {slot : Slot} {name : String}
    (hslot : (slot, name) ∈ slots.zip names) : slot.nameIn? s = some name := by
  obtain ⟨i, hi, heq⟩ := List.mem_iff_getElem.1 hslot
  rw [List.getElem_zip] at heq
  obtain ⟨rfl, rfl⟩ := Prod.mk.inj heq
  obtain ⟨hslots, hnames⟩ : i < slots.length ∧ i < names.length := by
    simpa [Nat.lt_min] using hi
  have hplace := congrArg (·[i]?) h
  simpa [hslots, hnames] using hplace.symm

/-- The stylesheet of an anchored engine shows all its rules. -/
theorem Anchored.shownIn_renderStyles {e : Engine σ} (he : e.Anchored) {r : AtomicRule}
    (hr : r ∈ e.store.rules) : r.ShownIn e.renderStyles := by
  obtain ⟨front, sheet, htext, hshows⟩ := Stylesheet.shownIn_render hr (he.rules r hr)
  refine ⟨(String.join (e.config.preflights.map fun p => p.text e.snapshot)).toList ++ front,
    sheet, ?_, hshows⟩
  rw [renderStyles, String.toList_append, htext, List.append_assoc]

/-- No stored declaration is lost in rendering. Let `e` be an engine that a new engine
has become, with any plugins, whose default selector holds a name marker. Each of its
rules can be written, stands in the tree of the stylesheet at the end of its chain with
its name filled in, and can be read there in the text. A use answers with a name for
every slot, and every later engine shows the declarations of the slots under these
names. -/
theorem Run.rules_rendered {config : EngineConfig σ} {shared : σ} {e₀ e : Engine σ}
    {warnings : List Warning} {events : List (Event σ)}
    (hcreate : create config shared = some (.ok (e₀, warnings)))
    (hhost : hasName e₀.config.defaultSelector.toList = true) (hrun : Run e₀ events e) :
    (∀ r ∈ e.store.rules, r.declaration.isRenderable = true ∧
      (Stylesheet.tree e.store.rules).Holds r.declaration.body r.namedChain ∧
      r.ShownIn (Stylesheet.render e.store.rules)) ∧
    (∀ b items o e₁, useStyles b items e = some (.ok o, e₁) →
      ∃ parts m, extractAll b items e = some (.ok parts, m) ∧
        o.names.map some = (merge parts).map (Slot.nameIn? e₁.store) ∧
        ∀ later e₂, Run e₁ later e₂ →
          ∀ d name, (.declaration d, name) ∈ (merge parts).zip o.names →
            ⟨name, d⟩ ∈ e₂.store.rules ∧ AtomicRule.ShownIn ⟨name, d⟩ e₂.renderStyles) := by
  obtain ⟨hcanonical, -⟩ := hrun.canonical (storeCanonical_of_create hcreate)
  have he : e.Anchored := hrun.anchored (anchored_of_create hcreate hhost)
  refine ⟨fun r hr => ⟨he.rules r hr, Stylesheet.holds_tree hr (he.rules r hr),
    Stylesheet.shownIn_render hr (he.rules r hr)⟩, fun b items o e₁ huse => ?_⟩
  have he₁ := he.useStyles huse
  obtain ⟨hcanonical₁, -⟩ := useStyles_canonical hcanonical huse
  rcases useStyles_eq_some.1 huse with ⟨err, -, herr⟩ | ⟨parts, m, hread, ho, rfl⟩
  · cases herr
  obtain rfl := Except.ok.inj ho
  obtain ⟨hm, -⟩ := storeCanonical_of_fixed (preserves_extractAll _ _ _ _ _ hread) hcanonical
  obtain ⟨-, -, hnames⟩ := addSlots_canonical hm
  refine ⟨parts, m, hread, hnames, fun later e₂ hlater d name hslot => ?_⟩
  -- the name of the slot is that of its declaration, which later engines keep
  have hname := nameIn?_of_mem_zip hnames hslot
  obtain ⟨hcanonical₂, hext⟩ := hlater.canonical hcanonical₁
  have hget := (Store.nameOf?_eq_some_iff hcanonical₁).1 hname
  have hmem := hext.rules.subset ((Store.get?_eq_some_iff hcanonical₁).1 hget).1
  exact ⟨hmem, (hlater.anchored he₁).shownIn_renderStyles hmem⟩

/-- A plugin that replaces every chain by a selector without groups and one whose first
group has no marker. -/
def hoverPlugin : Plugin Unit :=
  .custom { name := "hover", selectors := fun _ s => (.ok (some [" , ", "p, &:hover"]), s) }

/-- The new engine with this plugin. -/
def hoveringEngine : Engine Unit where
  config := { namePrefix := "x-" }
  pipeline := ⟨[hoverPlugin], ()⟩

/-- Red text, used in this engine, is shown for the hovered element, also after a
preview. -/
theorem Run.rules_rendered_hover :
    let red : Declaration := ⟨["p,.$$:hover"], "color", ["red"]⟩
    let items : List StyleItem := [.definition [("color", .property (.scalar (.text "red")))]]
    create { draft := { namePrefix := some "x-" }, plugins := [.plugin hoverPlugin] } () =
        some (.ok (hoveringEngine, [])) ∧
      hasName hoveringEngine.config.defaultSelector.toList = true ∧
      ∃ e₁ e₂ ev, useStyles 1 items hoveringEngine = some (.ok ⟨["x-a"], []⟩, e₁) ∧
        Run e₁ [ev] e₂ ∧ AtomicRule.ShownIn ⟨"x-a", red⟩ e₂.renderStyles := by
  intro red items
  have hcreate : create { draft := { namePrefix := some "x-" }, plugins := [.plugin hoverPlugin] }
      () = some (.ok (hoveringEngine, [])) := by rfl
  have hhost : hasName hoveringEngine.config.defaultSelector.toList = true := by decide
  have hused : (useStyles 1 items hoveringEngine).map Prod.fst = some (.ok ⟨["x-a"], []⟩) := by
    rfl
  have hsaid : (extractAll 1 items hoveringEngine).map Prod.fst =
      some (.ok [.assignment ⟨["p,.$$:hover"], "color", some ["red"]⟩]) := by rfl
  obtain ⟨⟨_, e₁⟩, huse, rfl⟩ := Option.map_eq_some_iff.1 hused
  obtain ⟨parts, m, hread, -, hshown⟩ :=
    (Run.rules_rendered hcreate hhost (.nil _)).2 1 items _ e₁ huse
  rw [hread] at hsaid
  obtain rfl := Except.ok.inj (Option.some.inj hsaid)
  have hpreview : Call.perform 0 (.preview []) e₁ = some (.ok (.css ""), e₁) := by rfl
  have hrun : Run e₁ [e₁.event (.preview []) (.ok (.css ""))] e₁ := .cons hpreview (.nil _)
  refine ⟨hcreate, hhost, e₁, e₁, _, huse, hrun, (hshown _ e₁ hrun red "x-a" ?_).2⟩
  exact List.mem_singleton.2 rfl

end Engine

end AtomicCss
