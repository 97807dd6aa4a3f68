import AtomicCss.Engine
import AtomicCss.Proofs.Walk

/-!
# Runs of an engine

What a caller can do with an engine: use items, preview them, render all rules,
and add a listener. A run is a sequence of such calls, each of which has come to
an answer or to an error, with whatever budget it needed.

- `Call`, `Answer`, `Call.perform`: one call.
- `Event`: what can be observed of a call: its answer, and the store and the
  shared state that it leaves. Listeners act on the shared state, so it shows
  which notifications there were.
- `Engine.Run`: the events of a sequence of calls, from one engine to another.
- `preserves_extractAll`: reading items changes neither the configuration nor
  the store nor the listeners.
- `perform_reads`, `perform_iff_extractAll`: a call with items comes to an answer where they
  are read.
-/

namespace AtomicCss

variable {σ : Type}

/-- What is asked of an engine. -/
inductive Call (σ : Type) where
  | use (items : List StyleItem)
  | preview (items : List StyleItem)
  | render
  | listen (listener : AtomicRule → σ → σ)

/-- What an engine answers. -/
inductive Answer where
  | outcome (o : UseOutcome)
  | css (text : String)
  | done

/-- Perform a call. -/
def Call.perform (budget : Nat) : Call σ → Walk (Engine σ) Answer
  | .use items => do return .outcome (← Engine.useStyles budget items)
  | .preview items => do return .css (← Engine.previewStyles budget items)
  | .render => Walk.step fun e => (.css e.renderStyles, e)
  | .listen listener => Walk.step fun e => (.done, e.listen listener)

/-- The items that a call reads, if it reads any. -/
def Call.items? : Call σ → Option (List StyleItem)
  | .use items => some items
  | .preview items => some items
  | .render => none
  | .listen _ => none

/-- A call that has come to a result, with what it leaves behind. -/
structure Event (σ : Type) where
  call : Call σ
  answer : Except Error Answer
  store : Store
  shared : σ

namespace Engine

/-- The event of a call that has led to an engine. -/
def event (e : Engine σ) (c : Call σ) (answer : Except Error Answer) : Event σ :=
  ⟨c, answer, e.store, e.pipeline.shared⟩

/-- Calls one after the other, from an engine to an engine. -/
inductive Run : Engine σ → List (Event σ) → Engine σ → Prop
  | nil (e : Engine σ) : Run e [] e
  | cons {e e₁ e₂ : Engine σ} {budget : Nat} {c : Call σ} {answer : Except Error Answer}
      {events : List (Event σ)} :
      c.perform budget e = some (answer, e₁) → Run e₁ events e₂ →
      Run e (e₁.event c answer :: events) e₂

/-- Whatever every call keeps, a run keeps. -/
theorem Run.invariant {I : Engine σ → Prop}
    (step : ∀ {budget c answer} {e e₁ : Engine σ},
      I e → Call.perform budget c e = some (answer, e₁) → I e₁)
    {e e' : Engine σ} {events : List (Event σ)} (h : Run e events e') (he : I e) : I e' := by
  induction h with
  | nil => exact he
  | cons hcall _ ih => exact ih (step he hcall)

theorem Run.append {e e₁ e₂ : Engine σ} {before after : List (Event σ)}
    (h : Run e before e₁) (h' : Run e₁ after e₂) : Run e (before ++ after) e₂ := by
  induction h with
  | nil => exact h'
  | cons hcall _ ih => exact .cons hcall (ih h')

/-! ## New engines -/

/-- A new engine has the settled configuration and pipeline, and nothing else. -/
theorem create_eq_some {config : EngineConfig σ} {shared : σ} {e : Engine σ}
    {warnings : List Warning} (h : create config shared = some (.ok (e, warnings))) :
    ∃ settled pipeline,
      settle config.draft ⟨Pipeline.arrange config.plugins, shared⟩ =
        some (.ok (settled, warnings), pipeline) ∧
      e = { config := settled, pipeline := pipeline } := by
  unfold create at h
  split at h
  · cases h
  · cases h
  · next settled warnings' pipeline hsettle =>
    obtain ⟨rfl, rfl⟩ := Prod.mk.inj (Except.ok.inj (Option.some.inj h))
    exact ⟨settled, pipeline, hsettle, rfl⟩

/-! ## Reading items -/

/-- The part of an engine that reading items leaves alone. -/
def fixed (e : Engine σ) : Config × Store × List (AtomicRule → σ → σ) :=
  (e.config, e.store, e.listeners)

theorem preserves_onPipeline {α : Type} (w : Walk (Pipeline σ) α) :
    Walk.Preserves fixed (onPipeline w) := by
  refine Walk.preserves_within ?_ w
  exact fun _ _ => rfl

theorem preserves_extractItem (budget : Nat) :
    ∀ item : StyleItem, Walk.Preserves (fixed (σ := σ)) (extractItem budget item)
  | .definition d =>
    Walk.preserves_bind Walk.preserves_get fun _ => preserves_onPipeline _
  | .shortcut name => by
    refine Walk.preserves_bind Walk.preserves_get fun e => ?_
    cases Table.get? e.shortcuts name with
    | some parts => exact Walk.preserves_pure parts
    | none =>
      -- the shortcut is read and kept; what is kept is not part of the view
      refine Walk.preserves_bind (preserves_onPipeline _) fun parts => ?_
      exact Walk.preserves_bind (Walk.preserves_modify fun _ => rfl) fun _ =>
        Walk.preserves_pure parts

theorem preserves_extractAll (budget : Nat) (items : List StyleItem) :
    Walk.Preserves (fixed (σ := σ)) (extractAll budget items) :=
  Walk.preserves_collect (preserves_extractItem budget) items

/-! ## Calls that come to a result -/

/-- A declaration is interned, and announced if it is new. -/
theorem addDeclaration_eq (e : Engine σ) (d : Declaration) :
    e.addDeclaration d =
      let interned := (e.store.intern d e.config.namePrefix).1
      let e' := { e with store := (e.store.intern d e.config.namePrefix).2 }
      (interned.name, if interned.created then e'.announce ⟨interned.name, d⟩ else e') := by
  rw [addDeclaration]
  rcases e.store.intern d e.config.namePrefix with ⟨interned, store⟩
  dsimp only
  split <;> rfl

theorem addSlots_declaration (e : Engine σ) (o : UseOutcome) (d : Declaration)
    (slots : List Slot) :
    e.addSlots o (.declaration d :: slots) = (e.addDeclaration d).2.addSlots
      ⟨o.names ++ [(e.addDeclaration d).1], o.unknown⟩ slots := rfl

/-- A use comes to an error while it reads the items, or it enters what it has read. -/
theorem useStyles_eq_some {budget : Nat} {items : List StyleItem} {e e' : Engine σ}
    {r : Except Error UseOutcome} :
    useStyles budget items e = some (r, e') ↔
      (∃ err, extractAll budget items e = some (.error err, e') ∧ r = .error err) ∨
      (∃ parts e₁, extractAll budget items e = some (.ok parts, e₁) ∧
        r = .ok (e₁.addSlots {} (merge parts)).1 ∧ e' = (e₁.addSlots {} (merge parts)).2) := by
  rw [useStyles, Walk.bind_eq_some]
  refine or_congr Iff.rfl ?_
  constructor
  · rintro ⟨parts, e₁, hread, h⟩
    obtain ⟨rfl, rfl⟩ := Prod.mk.inj (Option.some.inj h)
    exact ⟨parts, e₁, hread, rfl, rfl⟩
  · rintro ⟨parts, e₁, hread, rfl, rfl⟩
    exact ⟨parts, e₁, hread, rfl⟩

/-- A preview changes the engine by reading the items only. -/
theorem previewStyles_eq_some {budget : Nat} {items : List StyleItem} {e e' : Engine σ}
    {r : Except Error String} :
    previewStyles budget items e = some (r, e') ↔
      ∃ read, extractAll budget items e = some (read, e') ∧
        r = read.map fun parts =>
          Stylesheet.preview ((merge parts).filterMap Slot.declaration?) := by
  rw [previewStyles, Walk.bind_eq_some]
  constructor
  · rintro (⟨err, hread, rfl⟩ | ⟨parts, e₁, hread, h⟩)
    · exact ⟨_, hread, rfl⟩
    · obtain ⟨rfl, rfl⟩ := Prod.mk.inj (Option.some.inj h)
      exact ⟨_, hread, rfl⟩
  · rintro ⟨_ | parts, hread, rfl⟩
    · exact .inl ⟨_, hread, rfl⟩
    · exact .inr ⟨parts, e', hread, rfl⟩

/-- What a call comes to, by the kind of the call. -/
theorem perform_eq_some {budget : Nat} {c : Call σ} {e e' : Engine σ}
    {answer : Except Error Answer} :
    c.perform budget e = some (answer, e') ↔
      match c with
      | .use items => ∃ r, useStyles budget items e = some (r, e') ∧ answer = r.map .outcome
      | .preview items => ∃ r, previewStyles budget items e = some (r, e') ∧ answer = r.map .css
      | .render => answer = .ok (.css e.renderStyles) ∧ e' = e
      | .listen listener => answer = .ok .done ∧ e' = e.listen listener := by
  cases c with
  | use items => exact Walk.map_eq_some
  | preview items => exact Walk.map_eq_some
  | render => simp [Call.perform, eq_comm]
  | listen listener => simp [Call.perform, eq_comm]

/-! ## Calls that read items -/

/-- Both are errors, and the same one, or none is an error. -/
def FailAlike {α β : Type} (r : Except Error α) (r' : Except Error β) : Prop :=
  ∀ err, r = .error err ↔ r' = .error err

theorem failAlike_map {α β : Type} (r : Except Error α) (f : α → β) : FailAlike (r.map f) r := by
  intro err
  cases r <;> simp [Except.map]

theorem FailAlike.exists_ok_iff {α β : Type} {r : Except Error α} {r' : Except Error β}
    (h : FailAlike r r') : (∃ a, r = .ok a) ↔ ∃ b, r' = .ok b := by
  cases r with
  | error err => simp [(h err).1 rfl]
  | ok a =>
    cases r' with
    | error err => cases (h err).2 rfl
    | ok b => simp

/-- A call that comes to an answer has read its items, and fails if they do. It changes the
engine by reading them, and perhaps by entering slots. -/
theorem perform_reads {b : Nat} {c : Call σ} {e e' : Engine σ} {items : List StyleItem}
    {answer : Except Error Answer} (hc : c.items? = some items)
    (h : c.perform b e = some (answer, e')) :
    ∃ read e₁, extractAll b items e = some (read, e₁) ∧ FailAlike answer read ∧
      (e' = e₁ ∨ ∃ slots, e' = (e₁.addSlots {} slots).2) := by
  have hcall := perform_eq_some.1 h
  cases c with
  | use items' =>
    obtain rfl := Option.some.inj hc
    obtain ⟨r, huse, rfl⟩ := hcall
    rcases useStyles_eq_some.1 huse with ⟨err, hread, rfl⟩ | ⟨parts, e₁, hread, rfl, rfl⟩
    · exact ⟨_, _, hread, by simp [FailAlike, Except.map], .inl rfl⟩
    · exact ⟨_, _, hread, by simp [FailAlike, Except.map], .inr ⟨merge parts, rfl⟩⟩
  | preview items' =>
    obtain rfl := Option.some.inj hc
    obtain ⟨r, hpreview, rfl⟩ := hcall
    obtain ⟨read, hread, rfl⟩ := previewStyles_eq_some.1 hpreview
    exact ⟨read, e', hread, fun err =>
      (failAlike_map _ _ err).trans (failAlike_map _ _ err), .inl rfl⟩
  | render => cases hc
  | listen listener => cases hc

/-- A call comes to an answer exactly if its items are read or fail to be, and it fails
if they do. -/
theorem perform_iff_extractAll {b : Nat} {c : Call σ} {e : Engine σ} {items : List StyleItem}
    (hc : c.items? = some items) :
    (∀ {answer e'}, c.perform b e = some (answer, e') →
      ∃ read e₁, extractAll b items e = some (read, e₁) ∧ FailAlike answer read) ∧
    (∀ {read e₁}, extractAll b items e = some (read, e₁) →
      ∃ answer e', c.perform b e = some (answer, e') ∧ FailAlike answer read) := by
  constructor
  · intro answer e' hcall
    obtain ⟨read, e₁, hread, halike, -⟩ := perform_reads hc hcall
    exact ⟨read, e₁, hread, halike⟩
  · intro read e₁ hread
    cases c with
    | use items' =>
      obtain rfl := Option.some.inj hc
      cases read with
      | error err =>
        have huse := useStyles_eq_some.2 (.inl ⟨err, hread, rfl⟩)
        exact ⟨_, e₁, perform_eq_some.2 ⟨_, huse, rfl⟩, by simp [FailAlike, Except.map]⟩
      | ok parts =>
        have huse := useStyles_eq_some.2 (.inr ⟨parts, e₁, hread, rfl, rfl⟩)
        exact ⟨_, _, perform_eq_some.2 ⟨_, huse, rfl⟩, by simp [FailAlike, Except.map]⟩
    | preview items' =>
      obtain rfl := Option.some.inj hc
      have hpreview := previewStyles_eq_some.2 ⟨read, hread, rfl⟩
      exact ⟨_, e₁, perform_eq_some.2 ⟨_, hpreview, rfl⟩, fun err =>
        (failAlike_map _ _ err).trans (failAlike_map _ _ err)⟩
    | render => cases hc
    | listen listener => cases hc

end Engine

end AtomicCss
