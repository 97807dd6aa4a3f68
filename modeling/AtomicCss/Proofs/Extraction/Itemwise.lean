import AtomicCss.Proofs.Compile
import AtomicCss.Proofs.Engine.Termination

/-!
# Items read one by one, and at once

An engine reads the items of a call one by one and keeps what each shortcut says. The items
under a key are read at once: all of them are expanded before the first one is walked through,
and nothing is kept of them. With the bundled plugins this makes no difference to what the items
say, and a list says what its front and its back say.

- `Vocabulary.gives_items_append`: what a list says under a chain, front and back.
- `Vocabulary.gives_extractAll_iff`: what items say one by one, and at once.
- `Engine.Lists`: what an engine reads in a list at once.
- `Engine.Run.read_itemwise`: reading one by one, at once, and piece by piece.
-/

namespace AtomicCss

open Reading

/-! ## Lists in a vocabulary -/

namespace Vocabulary

variable {v : Vocabulary} {b : Nat} {chain : List String} {xs ys list : List StyleItem}
  {parts : List Extracted}

/-- A list succeeds with what the items that it expands to say. -/
theorem gives_items_ok_iff : Gives (v.items b chain list) (.ok parts) ↔
    ∃ expanded, Gives (v.expansion b list) (.ok expanded) ∧
      Gives (Walk.collect (part (v.definition b chain)) expanded) (.ok parts) := by
  rw [items, gives_bind]
  simp

/-- A list says what its front says, and then what its back says. -/
theorem gives_items_append : Gives (v.items b chain (xs ++ ys)) (.ok parts) ↔
    ∃ front back, Gives (v.items b chain xs) (.ok front) ∧
      Gives (v.items b chain ys) (.ok back) ∧ parts = front ++ back := by
  constructor
  · intro h
    obtain ⟨_, hexpanded, hparts⟩ := gives_items_ok_iff.1 h
    obtain ⟨x, y, hx, hy, rfl⟩ := gives_collect_ok_append.1 hexpanded
    obtain ⟨front, back, hfront, hback, rfl⟩ := gives_collect_ok_append.1 hparts
    exact ⟨front, back, gives_items_ok_iff.2 ⟨x, hx, hfront⟩, gives_items_ok_iff.2 ⟨y, hy, hback⟩,
      rfl⟩
  · rintro ⟨front, back, hfront, hback, rfl⟩
    obtain ⟨x, hx, hfront⟩ := gives_items_ok_iff.1 hfront
    obtain ⟨y, hy, hback⟩ := gives_items_ok_iff.1 hback
    exact gives_items_ok_iff.2 ⟨x ++ y, gives_collect_ok_append.2 ⟨x, y, hx, hy, rfl⟩,
      gives_collect_ok_append.2 ⟨front, back, hfront, hback, rfl⟩⟩

/-- A list is read to an end if its expansion is, and then what it has expanded to. -/
theorem exists_gives_items_iff : (∃ r, Gives (v.items b chain list) r) ↔
    (∃ r, Gives (v.expansion b list) r) ∧
      ∀ expanded, Gives (v.expansion b list) (.ok expanded) →
        ∃ r, Gives (Walk.collect (part (v.definition b chain)) expanded) r := by
  constructor
  · rintro ⟨r, hr⟩
    rcases gives_bind.1 hr with ⟨err, herr, -⟩ | ⟨expanded, hexpanded, hr⟩
    · exact ⟨⟨_, herr⟩, fun _ hok => nomatch herr.unique hok⟩
    · refine ⟨⟨_, hexpanded⟩, fun expanded' hexpanded' => ?_⟩
      obtain rfl := Except.ok.inj (hexpanded.unique hexpanded')
      exact ⟨r, hr⟩
  · rintro ⟨⟨err | expanded, hexpanded⟩, hparts⟩
    · exact ⟨_, gives_bind.2 (.inl ⟨err, hexpanded, rfl⟩)⟩
    · obtain ⟨r, hr⟩ := hparts expanded hexpanded
      exact ⟨r, gives_bind.2 (.inr ⟨expanded, hexpanded, hr⟩)⟩

/-- If two lists are read to an end, so are both in a row. -/
theorem exists_gives_items_append (hxs : ∃ r, Gives (v.items b chain xs) r)
    (hys : ∃ r, Gives (v.items b chain ys) r) : ∃ r, Gives (v.items b chain (xs ++ ys)) r := by
  obtain ⟨hx, hfront⟩ := exists_gives_items_iff.1 hxs
  obtain ⟨hy, hback⟩ := exists_gives_items_iff.1 hys
  refine exists_gives_items_iff.2 ⟨exists_gives_collect_append hx hy, fun expanded h => ?_⟩
  obtain ⟨x, y, hx, hy, rfl⟩ := gives_collect_ok_append.1 h
  exact exists_gives_collect_append (hfront x hx) (hback y hy)

/-- An item of its own is a list of one item. -/
theorem extractItem_eq (item : StyleItem) : v.extractItem b item = v.items b [] [item] := by
  cases item with
  | shortcut name => rfl
  | definition d =>
    rw [items, expansion, Walk.collect_singleton, item, pure_bind, Walk.collect_singleton]
    rfl

theorem gives_items_nil : Gives (v.items b chain []) (.ok []) := rfl

/-- One by one, items say what they say at once. -/
theorem gives_extractAll_ok_iff :
    Gives (v.extractAll b list) (.ok parts) ↔ Gives (v.items b [] list) (.ok parts) := by
  induction list generalizing parts with
  | nil => rfl
  | cons item list ih =>
    rw [extractAll, gives_collect_ok_cons, ← List.singleton_append, gives_items_append]
    simp only [extractItem_eq, ← ih, extractAll]

/-- If each item is read to an end, both readings of all of them are. -/
theorem exists_gives_of_items (h : ∀ item ∈ list, ∃ r, Gives (v.extractItem b item) r) :
    (∃ r, Gives (v.extractAll b list) r) ∧ ∃ r, Gives (v.items b [] list) r := by
  refine ⟨exists_gives_collect h, ?_⟩
  induction list with
  | nil => exact ⟨_, gives_items_nil⟩
  | cons item list ih =>
    obtain ⟨hitem, hlist⟩ := List.forall_mem_cons.1 h
    rw [extractItem_eq] at hitem
    exact exists_gives_items_append hitem (ih hlist)

/-! ## Whatever the budget -/

variable {r r' : Except Error (List Extracted)}

/-- Two lists in a row succeed exactly if both do, and say what both say. -/
theorem means_items_append : Means (fun b => v.items b chain (xs ++ ys)) (.ok parts) ↔
    ∃ front back, Means (fun b => v.items b chain xs) (.ok front) ∧
      Means (fun b => v.items b chain ys) (.ok back) ∧ parts = front ++ back := by
  constructor
  · rintro ⟨b, h⟩
    obtain ⟨front, back, hfront, hback, rfl⟩ := gives_items_append.1 h
    exact ⟨front, back, ⟨b, hfront⟩, ⟨b, hback⟩, rfl⟩
  · rintro ⟨front, back, hfront, hback, rfl⟩
    obtain ⟨b, hfront, hback⟩ :=
      hfront.both (v.rising_items chain xs) (v.rising_items chain ys) hback
    exact ⟨b, gives_items_append.2 ⟨front, back, hfront, hback, rfl⟩⟩

theorem exists_means_items_append (hxs : Means (fun b => v.items b chain xs) r)
    (hys : Means (fun b => v.items b chain ys) r') :
    ∃ r, Means (fun b => v.items b chain (xs ++ ys)) r := by
  obtain ⟨b, hxs, hys⟩ := hxs.both (v.rising_items chain xs) (v.rising_items chain ys) hys
  obtain ⟨r, hr⟩ := exists_gives_items_append ⟨_, hxs⟩ ⟨_, hys⟩
  exact ⟨r, b, hr⟩

/-- Items one by one succeed with what the list succeeds with. -/
theorem means_extractAll_ok_iff : Means (fun b => v.extractAll b list) (.ok parts) ↔
    Means (fun b => v.items b [] list) (.ok parts) :=
  exists_congr fun _ => gives_extractAll_ok_iff

/-- If each item comes to something alone, so do the items one by one and the list. -/
theorem exists_means_of_items
    (h : ∀ item ∈ list, ∃ r, Means (fun b => v.extractAll b [item]) r) :
    (∃ r, Means (fun b => v.extractAll b list) r) ∧ ∃ r, Means (fun b => v.items b [] list) r := by
  have hsingle : ∀ single ∈ list.map ([·]), ∃ r, Means (fun b => v.extractAll b single) r := by
    simpa using h
  obtain ⟨b, hb⟩ := exists_budget hsingle
  have hitems : ∀ item ∈ list, ∃ r, Gives (v.extractItem b item) r := by
    intro item hitem
    have hread := hb [item] (List.mem_map_of_mem hitem)
    rwa [extractAll, Walk.collect_singleton] at hread
  obtain ⟨⟨r, hr⟩, r', hr'⟩ := exists_gives_of_items hitems
  exact ⟨⟨r, b, hr⟩, r', b, hr'⟩

end Vocabulary

/-! ## Lists in an engine -/

namespace Engine

variable {σ : Type} {v : Vocabulary} {e e' : Engine σ} {chain : List String}
  {list : List StyleItem} {r : Except Error (List Extracted)}

/-- What an engine reads in a list of items at once, under a chain and with some budget, and what
it has become then. -/
def Lists (e : Engine σ) (chain : List String) (list : List StyleItem)
    (r : Except Error (List Extracted)) (e' : Engine σ) : Prop :=
  ∃ b, onPipeline (Extraction.items e.config.defaultSelector b chain list) e = some (r, e')

/-- An engine reads in a list what the list means, and goes on to speak the vocabulary. -/
theorem Speaks.of_lists (he : e.Speaks v) (h : e.Lists chain list r e') :
    e'.Speaks v ∧ Means (fun b => v.items b chain list) r := by
  obtain ⟨b, hread⟩ := h
  rw [he.host] at hread
  obtain ⟨halike, hmeans⟩ := (tracks_onPipeline (Extraction.tracks_items chain list)).answers
    (Alike.refl he) hread
  exact ⟨halike.right, hmeans⟩

/-- What a list means is read by every engine that speaks the vocabulary. -/
theorem Speaks.exists_lists (he : e.Speaks v) (h : Means (fun b => v.items b chain list) r) :
    ∃ e', e.Lists chain list r e' := by
  obtain ⟨b, hr⟩ := h
  obtain ⟨e', hread⟩ := (tracks_onPipeline (Extraction.tracks_items chain list)).follows
    (Alike.refl he) hr
  exact ⟨e', b, by rwa [he.host]⟩

theorem Speaks.means_iff_lists (he : e.Speaks v) :
    (∃ e', e.Lists chain list r e') ↔ Means (fun b => v.items b chain list) r :=
  ⟨fun ⟨_, h⟩ => (he.of_lists h).2, he.exists_lists⟩

/-- Reading one by one, at once, and piece by piece. Let `e₀` be a new engine with the bundled
plugins, to which pattern rules may have been given, and `e` an engine that it has become. What
it reads in items one by one, it reads in them at once; and if both readings end, they fail
together. They need not end together where both fail, as an item that never ends may stand
behind the first error of the one and in front of that of the other; they do end if each item
does. Under any chain, a list is read as its front is, and then its back. -/
theorem Run.read_itemwise {draft : Draft} {shared : σ}
    {selectorPatterns : Table String (PatternRule (List String))}
    {shortcutPatterns : Table String (PatternRule (List StyleItem))} {e₀ e : Engine σ}
    {warnings : List Warning} {events : List (Event σ)}
    (hcreate : create ⟨draft, [.coreWith selectorPatterns shortcutPatterns]⟩ shared =
      some (.ok (e₀, warnings)))
    (hrun : Run e₀ events e) (items : List StyleItem) :
    (∀ parts, e.Says items (.ok parts) ↔ ∃ e', e.Lists [] items (.ok parts) e') ∧
    (∀ r r' e', e.Says items r → e.Lists [] items r' e' →
      (∃ parts, r = .ok parts ∧ r' = .ok parts) ∨
        ∃ err err', r = .error err ∧ r' = .error err') ∧
    ((∀ item ∈ items, ∃ r, e.Says [item] r) →
      (∃ r, e.Says items r) ∧ ∃ r e', e.Lists [] items r e') ∧
    (∀ chain xs ys parts, (∃ e', e.Lists chain (xs ++ ys) (.ok parts) e') ↔
      ∃ front e₁ back e₂, e.Lists chain xs (.ok front) e₁ ∧ e₁.Lists chain ys (.ok back) e₂ ∧
        parts = front ++ back) ∧
    ∀ chain xs ys, (∃ r e', e.Lists chain xs r e') → (∃ r e', e.Lists chain ys r e') →
      ∃ r e', e.Lists chain (xs ++ ys) r e' := by
  obtain ⟨_, -, halike⟩ := hrun.thin (Alike.refl (speaks_of_create hcreate)) (Thins.refl events)
  have he : e.Speaks e₀.vocabulary := halike.left
  have hok (parts : List Extracted) :
      e.Says items (.ok parts) ↔ ∃ e', e.Lists [] items (.ok parts) e' := by
    rw [he.means_iff_says, he.means_iff_lists, Vocabulary.means_extractAll_ok_iff]
  refine ⟨hok, ?_, ?_, ?_, ?_⟩
  · intro r r' e' hsays hlists
    have hr := he.means_iff_says.1 hsays
    obtain ⟨-, hr'⟩ := he.of_lists hlists
    cases r with
    | ok parts =>
      have hsame := Vocabulary.means_extractAll_ok_iff.1 hr
      exact .inl ⟨parts, rfl, hr'.unique (e₀.vocabulary.rising_items [] items) hsame⟩
    | error err =>
      cases r' with
      | error err' => exact .inr ⟨err, err', rfl, rfl⟩
      | ok parts =>
        cases Vocabulary.means_unique hr (Vocabulary.means_extractAll_ok_iff.2 hr')
  · intro hitems
    obtain ⟨⟨r, hr⟩, r', hr'⟩ := Vocabulary.exists_means_of_items fun item hitem =>
      let ⟨r, hr⟩ := hitems item hitem
      ⟨r, he.means_iff_says.1 hr⟩
    exact ⟨⟨r, he.means_iff_says.2 hr⟩, r', he.exists_lists hr'⟩
  · intro chain xs ys parts
    rw [he.means_iff_lists, Vocabulary.means_items_append]
    constructor
    · rintro ⟨front, back, hfront, hback, rfl⟩
      obtain ⟨e₁, hfront⟩ := he.exists_lists hfront
      obtain ⟨e₂, hback⟩ := (he.of_lists hfront).1.exists_lists hback
      exact ⟨front, e₁, back, e₂, hfront, hback, rfl⟩
    · rintro ⟨front, e₁, back, e₂, hfront, hback, rfl⟩
      obtain ⟨he₁, hfront⟩ := he.of_lists hfront
      exact ⟨front, back, hfront, (he₁.of_lists hback).2, rfl⟩
  · rintro chain xs ys ⟨r, e₁, hxs⟩ ⟨r', e₂, hys⟩
    obtain ⟨r'', hr''⟩ :=
      Vocabulary.exists_means_items_append (he.of_lists hxs).2 (he.of_lists hys).2
    exact ⟨r'', he.exists_lists hr''⟩

/-- A shortcut that has been used, behind a name that nothing answers. -/
theorem Run.read_itemwise_flag :
    let items : List StyleItem := [.shortcut "mystery", .shortcut "s"]
    let parts : List Extracted :=
      [.unknown "mystery", .assignment ⟨[".$$"], "color", some ["red"]⟩]
    create ⟨flagDraft, [.coreWith [] []]⟩ () = some (.ok (flagEngine, [])) ∧
      ∃ e, Run flagEngine
          [e.event (.use [.shortcut "s"]) (.ok (.outcome ⟨["a"], []⟩))] e ∧
        e.Says items (.ok parts) ∧ ∃ e', e.Lists [] items (.ok parts) e' := by
  intro items parts
  have hcreate : create ⟨flagDraft, [.coreWith [] []]⟩ () = some (.ok (flagEngine, [])) := by rfl
  obtain ⟨e, huse⟩ : ∃ e, Call.perform 2 (.use [.shortcut "s"]) flagEngine =
      some (.ok (.outcome ⟨["a"], []⟩), e) := ⟨_, by rfl⟩
  have hread : ((Call.perform 2 (.use [.shortcut "s"]) flagEngine).bind fun used =>
      (extractAll 2 items used.2).map Prod.fst) = some (.ok parts) := by rfl
  rw [huse, Option.bind_some] at hread
  obtain ⟨⟨_, e'⟩, hread, rfl⟩ := Option.map_eq_some_iff.1 hread
  have hsays : e.Says items (.ok parts) := ⟨2, e', hread⟩
  have hrun : Run flagEngine
      [e.event (.use [.shortcut "s"]) (.ok (.outcome ⟨["a"], []⟩))] e :=
    .cons huse (.nil e)
  exact ⟨hcreate, e, hrun, hsays, ((Run.read_itemwise hcreate hrun items).1 parts).1 hsays⟩

end Engine

end AtomicCss
