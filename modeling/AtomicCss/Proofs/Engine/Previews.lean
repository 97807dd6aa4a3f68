import AtomicCss.Proofs.Budget
import AtomicCss.Proofs.Engine.Naming

/-!
# Previews show what uses enter

A use and a preview of the same items read them in the same way and part only then:
the use enters the declarations into the store and answers with names, the preview
writes the declarations down. What the store holds afterwards under the names of the
answer is what the preview has written, whatever the plugins are.

- `ruleNames`: the names that an answer has in the places of declarations.
- `Store.declarations_ruleNames`: looking these names up gives the declarations back.
- `Engine.Run.preview_agrees`: both calls fail alike, or the preview is that of the
  declarations that the store holds under the names of the answer.
-/

namespace AtomicCss

variable {σ : Type}

/-- The names that stand in the places of the declarations among slots. -/
def ruleNames (slots : List Slot) (names : List String) : List String :=
  (slots.zip names).filterMap fun
    | (.declaration _, name) => some name
    | (.unknown _, _) => none

/-- In a canonical store the names in the places of declarations lead back to the
declarations, in their order. -/
theorem Store.declarations_ruleNames {s : Store} {namePrefix : String}
    (hs : s.Canonical namePrefix) {slots : List Slot} {names : List String}
    (h : names.map some = slots.map (Slot.nameIn? s)) :
    (ruleNames slots names).map (fun name => (s.get? name).map AtomicRule.declaration) =
      (slots.filterMap Slot.declaration?).map some := by
  induction slots generalizing names with
  | nil => simp [ruleNames]
  | cons slot slots ih =>
    cases names with
    | nil => cases h
    | cons name names =>
      obtain ⟨hname, hnames⟩ := List.cons.inj h
      have hrest := ih hnames
      cases slot with
      | unknown => exact hrest
      | declaration d =>
        have hget := (Store.nameOf?_eq_some_iff hs).1 hname.symm
        show (s.get? name).map AtomicRule.declaration :: (ruleNames slots names).map _ = _
        rw [hrest, hget]
        rfl

namespace Engine

/-- A use comes to a result where the items are read. -/
theorem useStyles_ends_iff {items : List StyleItem} {e : Engine σ} {b : Nat} :
    (∃ x, useStyles b items e = some x) ↔ ∃ x, extractAll b items e = some x := by
  constructor
  · rintro ⟨⟨r, e₁⟩, h⟩
    rcases useStyles_eq_some.1 h with ⟨err, hread, -⟩ | ⟨parts, m, hread, -⟩
    · exact ⟨_, hread⟩
    · exact ⟨_, hread⟩
  · rintro ⟨⟨_ | parts, m⟩, hread⟩
    · exact ⟨_, useStyles_eq_some.2 (.inl ⟨_, hread, rfl⟩)⟩
    · exact ⟨_, useStyles_eq_some.2 (.inr ⟨parts, m, hread, rfl, rfl⟩)⟩

/-- So does a preview. -/
theorem previewStyles_ends_iff {items : List StyleItem} {e : Engine σ} {b : Nat} :
    (∃ x, previewStyles b items e = some x) ↔ ∃ x, extractAll b items e = some x := by
  constructor
  · rintro ⟨⟨r, e₁⟩, h⟩
    obtain ⟨read, hread, -⟩ := previewStyles_eq_some.1 h
    exact ⟨_, hread⟩
  · rintro ⟨⟨read, m⟩, hread⟩
    exact ⟨_, previewStyles_eq_some.2 ⟨read, hread, rfl⟩⟩

/-- Uses and previews agree. In every engine that a new engine can become, a use and a
preview of the same items both come to a result or neither does. If they do, they fail
with the same error, or the answer of the use has a name for every slot that was read,
and the preview is the stylesheet of what the store holds, after the use, under the
names in the places of declarations. -/
theorem Run.preview_agrees {config : EngineConfig σ} {shared : σ} {e₀ e : Engine σ}
    {warnings : List Warning} {events : List (Event σ)}
    (hcreate : create config shared = some (.ok (e₀, warnings))) (hrun : Run e₀ events e)
    (items : List StyleItem) :
    (∀ b, (∃ r, useStyles b items e = some r) ↔ ∃ r, previewStyles b items e = some r) ∧
    ∀ b c used shown e₁ e₂, useStyles b items e = some (used, e₁) →
      previewStyles c items e = some (shown, e₂) →
      (∃ err, used = .error err ∧ shown = .error err) ∨
      (∃ o parts m contents, used = .ok o ∧ extractAll b items e = some (.ok parts, m) ∧
        o.names.map some = (merge parts).map (Slot.nameIn? e₁.store) ∧
        (ruleNames (merge parts) o.names).map
          (fun name => (e₁.store.get? name).map AtomicRule.declaration) = contents.map some ∧
        shown = .ok (Stylesheet.preview contents)) := by
  refine ⟨fun b => useStyles_ends_iff.trans previewStyles_ends_iff.symm, ?_⟩
  intro b c used shown e₁ e₂ huse hpreview
  obtain ⟨he, -⟩ := hrun.canonical (storeCanonical_of_create hcreate)
  obtain ⟨read, hread, rfl⟩ := previewStyles_eq_some.1 hpreview
  rcases useStyles_eq_some.1 huse with ⟨err, hread', rfl⟩ | ⟨parts, m, hread', rfl, rfl⟩
  · obtain ⟨rfl, -⟩ := Prod.mk.inj (extractAll_unique hread hread')
    exact .inl ⟨err, rfl, rfl⟩
  · obtain ⟨rfl, -⟩ := Prod.mk.inj (extractAll_unique hread hread')
    -- reading leaves the store alone, and entering the slots names each of them
    obtain ⟨hm, -⟩ := storeCanonical_of_fixed (preserves_extractAll _ _ _ _ _ hread') he
    obtain ⟨he₁, -, hnames⟩ := addSlots_canonical hm
    exact .inr ⟨_, parts, m, _, rfl, hread', hnames,
      Store.declarations_ruleNames he₁ hnames, rfl⟩

/-- After one use of red text, a margin and red text are used between names that nothing
resolves, one of which is the name of the red rule. -/
theorem Run.preview_agrees_mystery :
    let red : Declaration := ⟨[".$$"], "color", ["red"]⟩
    let redItem : StyleItem := .definition [("color", .property (.scalar (.text "red")))]
    let margin : StyleItem := .definition [("margin", .property (.scalar (.text "0")))]
    let items : List StyleItem := [.shortcut "mystery", margin, .shortcut "x-a", redItem]
    let css : String := ".$$\x7bmargin:0;color:red\x7d"
    create { draft := { namePrefix := some "x-" } } () = some (.ok (plain, [])) ∧
      Run plain [(plainWith red).event (.use [redItem]) (.ok (.outcome ⟨["x-a"], []⟩))]
        (plainWith red) ∧
      ∃ e₁ e₂ contents,
        useStyles 2 items (plainWith red) =
          some (.ok ⟨["mystery", "x-b", "x-a", "x-a"], ["mystery", "x-a"]⟩, e₁) ∧
        previewStyles 3 items (plainWith red) = some (.ok css, e₂) ∧
        ["x-b", "x-a"].map (fun name => (e₁.store.get? name).map AtomicRule.declaration) =
          contents.map some ∧
        css = Stylesheet.preview contents := by
  intro red redItem margin items css
  have hcreate : create { draft := { namePrefix := some "x-" } } () =
      some (.ok (plain, [])) := by rfl
  have hcall : Call.perform 1 (.use [redItem]) plain =
      some (.ok (.outcome ⟨["x-a"], []⟩), plainWith red) := by rfl
  have hrun : Run plain
      [(plainWith red).event (.use [redItem]) (.ok (.outcome ⟨["x-a"], []⟩))]
      (plainWith red) := .cons hcall (.nil _)
  have hused : (useStyles 2 items (plainWith red)).map Prod.fst =
      some (.ok ⟨["mystery", "x-b", "x-a", "x-a"], ["mystery", "x-a"]⟩) := by
    -- both sides are closed once the local definitions are written out
    dsimp +zetaDelta only
    rfl
  have hshown : (previewStyles 3 items (plainWith red)).map Prod.fst = some (.ok css) := by
    dsimp +zetaDelta only
    rfl
  have hsaid : (extractAll 2 items (plainWith red)).map Prod.fst = some (.ok
      [.unknown "mystery", .assignment ⟨[".$$"], "margin", some ["0"]⟩, .unknown "x-a",
        .assignment ⟨[".$$"], "color", some ["red"]⟩]) := by
    dsimp +zetaDelta only
    rfl
  obtain ⟨⟨_, e₁⟩, huse, rfl⟩ := Option.map_eq_some_iff.1 hused
  obtain ⟨⟨_, e₂⟩, hpreview, rfl⟩ := Option.map_eq_some_iff.1 hshown
  refine ⟨hcreate, hrun, e₁, e₂, ?_⟩
  rcases (Run.preview_agrees hcreate hrun items).2 2 3 _ _ e₁ e₂ huse hpreview with
    ⟨err, herr, -⟩ | ⟨o, parts, m, contents, ho, hread, -, hcontents, hcss⟩
  · cases herr
  · obtain rfl := Except.ok.inj ho
    rw [hread] at hsaid
    obtain rfl := Except.ok.inj (Option.some.inj hsaid)
    exact ⟨contents, huse, hpreview, hcontents, Except.ok.inj hcss⟩

end Engine

end AtomicCss
