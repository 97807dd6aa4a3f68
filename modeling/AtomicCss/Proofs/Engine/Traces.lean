import AtomicCss.Proofs.Engine.Core

/-!
# Calls that leave no trace

A preview, and a call that ends in an error, change what an engine remembers. With
the bundled plugins nothing of that can be observed: leaving such calls out of a
run, or putting more of them in, changes no answer, no store and no notification.

- `Event.Traceless`, `Thins`: leaving calls out of a run.
- `Engine.perform_alike`: engines that agree in everything but what they remember
  answer alike and go on to agree.
- `Engine.perform_traceless`: a call that leaves no trace leads to such an engine.
- `Engine.Run.traceless`: the property of runs.
-/

namespace AtomicCss

open AliasRules

variable {σ : Type}

/-- An event of a call that must not leave a trace. -/
def Event.Traceless (ev : Event σ) : Prop :=
  (∃ items, ev.call = .preview items) ∨ ∃ err, ev.answer = .error err

/-- The second list is the first one, some events without a trace left out. -/
inductive Thins : List (Event σ) → List (Event σ) → Prop
  | nil : Thins [] []
  | keep {ev : Event σ} {events events' : List (Event σ)} :
      Thins events events' → Thins (ev :: events) (ev :: events')
  | drop {ev : Event σ} {events events' : List (Event σ)} :
      ev.Traceless → Thins events events' → Thins (ev :: events) events'

theorem Thins.refl : ∀ events : List (Event σ), Thins events events
  | [] => .nil
  | _ :: events => .keep (Thins.refl events)

namespace Engine

variable {v : Vocabulary} {e₁ e₂ e₁' e₂' : Engine σ}

theorem Alike.event (h : Alike v e₁ e₂) (c : Call σ) (answer : Except Error Answer) :
    e₂.event c answer = e₁.event c answer := by
  unfold Engine.event
  rw [h.store, h.shared]

theorem Alike.renderStyles (h : Alike v e₁ e₂) : e₂.renderStyles = e₁.renderStyles := by
  unfold Engine.renderStyles snapshot
  rw [h.config, h.store]

/-! ## Entering declarations -/

/-- No bundled plugin acts on what is shared when there is a new rule. -/
theorem Speaks.announce_eq (h : e₁.Speaks v) (r : AtomicRule) :
    e₁.announce r = { e₁ with pipeline := { e₁.pipeline with
      shared := e₁.listeners.foldl (fun s listener => listener r s) e₁.pipeline.shared } } := by
  obtain ⟨aliases, shortcuts, declared, hplugins, -⟩ := h.pipeline.plugins
  obtain ⟨config, ⟨plugins, shared⟩, store, kept, listeners⟩ := e₁
  obtain rfl : plugins = _ := hplugins
  rfl

theorem Speaks.withStore (h : e₁.Speaks v) (store : Store) :
    ({ e₁ with store := store } : Engine σ).Speaks v :=
  ⟨h.host, h.pipeline, h.kept⟩

theorem Speaks.announce (h : e₁.Speaks v) (r : AtomicRule) : (e₁.announce r).Speaks v := by
  rw [h.announce_eq]
  exact ⟨h.host, ⟨h.pipeline.plugins, rfl⟩, h.kept⟩

theorem Alike.withStore (h : Alike v e₁ e₂) (store : Store) :
    Alike v { e₁ with store := store } { e₂ with store := store } := by
  refine ⟨h.left.withStore store, h.right.withStore store, ?_, h.shared⟩
  show (e₂.config, store, e₂.listeners) = (e₁.config, store, e₁.listeners)
  rw [h.config, h.listeners]

theorem Alike.announce (h : Alike v e₁ e₂) (r : AtomicRule) :
    Alike v (e₁.announce r) (e₂.announce r) := by
  refine ⟨h.left.announce r, h.right.announce r, ?_, ?_⟩
  · rw [h.left.announce_eq, h.right.announce_eq]
    exact h.fixed
  · rw [h.left.announce_eq, h.right.announce_eq]
    show e₂.listeners.foldl _ e₂.pipeline.shared = e₁.listeners.foldl _ e₁.pipeline.shared
    rw [h.listeners, h.shared]

theorem addDeclaration_alike (h : Alike v e₁ e₂) (d : Declaration) :
    (e₂.addDeclaration d).1 = (e₁.addDeclaration d).1 ∧
      Alike v (e₁.addDeclaration d).2 (e₂.addDeclaration d).2 := by
  have hintern : e₂.store.intern d e₂.config.namePrefix =
      e₁.store.intern d e₁.config.namePrefix := by rw [h.store, h.config]
  rw [addDeclaration_eq, addDeclaration_eq, hintern]
  refine ⟨rfl, ?_⟩
  dsimp only
  split
  · exact (h.withStore _).announce _
  · exact h.withStore _

theorem addSlots_alike (h : Alike v e₁ e₂) (o : UseOutcome) (slots : List Slot) :
    (e₂.addSlots o slots).1 = (e₁.addSlots o slots).1 ∧
      Alike v (e₁.addSlots o slots).2 (e₂.addSlots o slots).2 := by
  induction slots generalizing e₁ e₂ o with
  | nil => exact ⟨rfl, h⟩
  | cons slot slots ih =>
    cases slot with
    | unknown name => exact ih h _
    | declaration d =>
      obtain ⟨hname, halike⟩ := addDeclaration_alike h d
      rw [addSlots_declaration, addSlots_declaration, hname]
      exact ih halike _

/-! ## One call -/

section

variable {b b' : Nat} {items : List StyleItem}

theorem extractAll_exists {read : Except Error (List Extracted)} (h : Alike v e₁ e₂)
    (h₁ : extractAll b items e₁ = some (read, e₁')) :
    ∃ c e₂', extractAll c items e₂ = some (read, e₂') := by
  obtain ⟨-, c, hc⟩ := (tracks_extractAll items).answers (Alike.refl h.left) h₁
  obtain ⟨e₂', he₂'⟩ := (tracks_extractAll items).follows h hc
  exact ⟨c, e₂', he₂'⟩

theorem extractAll_alike {read₁ read₂ : Except Error (List Extracted)} (h : Alike v e₁ e₂)
    (h₁ : extractAll b items e₁ = some (read₁, e₁'))
    (h₂ : extractAll b' items e₂ = some (read₂, e₂')) : read₂ = read₁ ∧ Alike v e₁' e₂' := by
  obtain ⟨h₁', c, hc⟩ := (tracks_extractAll items).answers (Alike.refl h.left) h₁
  obtain ⟨h₂', d, hd⟩ := (tracks_extractAll items).answers h h₂
  exact ⟨(v.rising_extractAll items).unique hd hc, h₁'.symm.trans h₂'⟩

/-- Reading items leads to an engine that differs in what it remembers only. -/
theorem extractAll_traceless {read : Except Error (List Extracted)} (h : e₁.Speaks v)
    (h₁ : extractAll b items e₁ = some (read, e₁')) : Alike v e₁ e₁' :=
  ((tracks_extractAll items).answers (Alike.refl h) h₁).1

end

section

variable {b b' : Nat} {c : Call σ} {answer answer₁ answer₂ : Except Error Answer}

/-- Where one engine comes to an answer, the other one does. -/
theorem perform_exists (h : Alike v e₁ e₂) (h₁ : c.perform b e₁ = some (answer, e₁')) :
    ∃ b' answer' e₂', c.perform b' e₂ = some (answer', e₂') := by
  have hread {items : List StyleItem} (hc : c.items? = some items) :
      ∃ b' answer' e₂', c.perform b' e₂ = some (answer', e₂') := by
    obtain ⟨read, e, hread, -⟩ := (perform_iff_extractAll hc).1 h₁
    obtain ⟨d, e', hread'⟩ := extractAll_exists h hread
    obtain ⟨answer', e₂', hcall, -⟩ := (perform_iff_extractAll hc).2 hread'
    exact ⟨d, answer', e₂', hcall⟩
  cases c with
  | use items => exact hread rfl
  | preview items => exact hread rfl
  | render => exact ⟨0, _, e₂, rfl⟩
  | listen listener => exact ⟨0, _, _, rfl⟩

/-- Engines that agree in everything but what they remember answer alike and go on
to agree, whatever the budgets. -/
theorem perform_alike (h : Alike v e₁ e₂) (h₁ : c.perform b e₁ = some (answer₁, e₁'))
    (h₂ : c.perform b' e₂ = some (answer₂, e₂')) : answer₂ = answer₁ ∧ Alike v e₁' e₂' := by
  have hcall₁ := perform_eq_some.1 h₁
  have hcall₂ := perform_eq_some.1 h₂
  cases c with
  | use items =>
    obtain ⟨r₁, huse₁, rfl⟩ := hcall₁
    obtain ⟨r₂, huse₂, rfl⟩ := hcall₂
    -- both read the same, so both fail with the same error or enter the same slots
    rcases useStyles_eq_some.1 huse₁ with
      ⟨err₁, hread₁, rfl⟩ | ⟨parts₁, e₁'', hread₁, rfl, rfl⟩ <;>
    rcases useStyles_eq_some.1 huse₂ with
      ⟨err₂, hread₂, rfl⟩ | ⟨parts₂, e₂'', hread₂, rfl, rfl⟩ <;>
    obtain ⟨hread, halike⟩ := extractAll_alike h hread₁ hread₂ <;>
    cases hread
    · exact ⟨rfl, halike⟩
    · obtain ⟨houtcome, halike'⟩ := addSlots_alike halike {} (merge parts₁)
      exact ⟨by rw [houtcome], halike'⟩
  | preview items =>
    obtain ⟨r₁, hpreview₁, rfl⟩ := hcall₁
    obtain ⟨r₂, hpreview₂, rfl⟩ := hcall₂
    obtain ⟨read₁, hread₁, rfl⟩ := previewStyles_eq_some.1 hpreview₁
    obtain ⟨read₂, hread₂, rfl⟩ := previewStyles_eq_some.1 hpreview₂
    obtain ⟨rfl, halike⟩ := extractAll_alike h hread₁ hread₂
    exact ⟨rfl, halike⟩
  | render =>
    obtain ⟨rfl, rfl⟩ := hcall₁
    obtain ⟨rfl, rfl⟩ := hcall₂
    exact ⟨by rw [h.renderStyles], h⟩
  | listen listener =>
    obtain ⟨rfl, rfl⟩ := hcall₁
    obtain ⟨rfl, rfl⟩ := hcall₂
    refine ⟨rfl, ⟨h.left.host, h.left.pipeline, h.left.kept⟩,
      ⟨h.right.host, h.right.pipeline, h.right.kept⟩, ?_, h.shared⟩
    show (e₂.config, e₂.store, e₂.listeners ++ [listener]) =
      (e₁.config, e₁.store, e₁.listeners ++ [listener])
    rw [h.config, h.store, h.listeners]

/-- A preview, and a call that ends in an error, lead to an engine that differs in
what it remembers only. -/
theorem perform_traceless (h : e₁.Speaks v) (h₁ : c.perform b e₁ = some (answer, e₁'))
    (htraceless : (e₁'.event c answer).Traceless) : Alike v e₁ e₁' := by
  have hcall := perform_eq_some.1 h₁
  cases c with
  | use items =>
    obtain ⟨r, huse, rfl⟩ := hcall
    rcases useStyles_eq_some.1 huse with ⟨err, hread, -⟩ | ⟨parts, e, -, rfl, -⟩
    · exact extractAll_traceless h hread
    · -- a use that succeeds is no traceless call
      rcases htraceless with ⟨items', hitems⟩ | ⟨err, herr⟩
      · cases hitems
      · cases herr
  | preview items =>
    obtain ⟨r, hpreview, -⟩ := hcall
    obtain ⟨read, hread, -⟩ := previewStyles_eq_some.1 hpreview
    exact extractAll_traceless h hread
  | render =>
    obtain ⟨-, rfl⟩ := hcall
    exact Alike.refl h
  | listen listener =>
    obtain ⟨rfl, -⟩ := hcall
    rcases htraceless with ⟨items', hitems⟩ | ⟨err, herr⟩
    · cases hitems
    · cases herr

end

/-! ## Runs -/

/-- A run can be repeated without some calls that leave no trace, from any engine that
agrees with the first one in everything but what it remembers. -/
theorem Run.thin {events events' : List (Event σ)} (h : Alike v e₁ e₂)
    (hrun : Run e₁ events e₁') (hthins : Thins events events') :
    ∃ e₂', Run e₂ events' e₂' ∧ Alike v e₁' e₂' := by
  induction hrun generalizing e₂ events' with
  | nil =>
    cases hthins
    exact ⟨e₂, .nil e₂, h⟩
  | cons hcall _ ih =>
    cases hthins with
    | keep hthins =>
      -- the other engine comes to the same answer, perhaps with another budget
      obtain ⟨b, answer, m, hcall'⟩ := perform_exists h hcall
      obtain ⟨rfl, halike⟩ := perform_alike h hcall hcall'
      obtain ⟨e₂', hrun', halike'⟩ := ih halike hthins
      refine ⟨e₂', ?_, halike'⟩
      rw [← halike.event]
      exact .cons hcall' hrun'
    | drop htraceless hthins =>
      -- the call that is left out led to an engine that agrees with the one before it
      have hsame := perform_traceless h.left hcall htraceless
      exact ih (hsame.symm.trans h) hthins

/-- The same calls have the same events. -/
theorem Run.unique {events₁ events₂ : List (Event σ)} (h : Alike v e₁ e₂)
    (h₁ : Run e₁ events₁ e₁') (h₂ : Run e₂ events₂ e₂')
    (hcalls : events₁.map Event.call = events₂.map Event.call) :
    events₁ = events₂ ∧ Alike v e₁' e₂' := by
  induction h₁ generalizing e₂ events₂ with
  | nil =>
    cases h₂ with
    | nil => exact ⟨rfl, h⟩
    | cons _ _ => cases hcalls
  | cons hcall₁ _ ih =>
    cases h₂ with
    | nil => cases hcalls
    | cons hcall₂ hrun₂ =>
      obtain ⟨hcall, hrest⟩ := List.cons.inj hcalls
      dsimp only [event] at hcall
      subst hcall
      obtain ⟨rfl, halike⟩ := perform_alike h hcall₁ hcall₂
      obtain ⟨rfl, halike'⟩ := ih halike hrun₂ hrest
      exact ⟨by rw [halike.event], halike'⟩

/-- Two engines that cannot be told apart: by their stores, by what listeners have
done, or by their stylesheets. -/
def LooksLike (e e' : Engine σ) : Prop :=
  e'.store = e.store ∧ e'.pipeline.shared = e.pipeline.shared ∧
    e'.renderStyles = e.renderStyles

theorem Alike.looksLike (h : Alike v e₁ e₂) : LooksLike e₁ e₂ :=
  ⟨h.store, h.shared, h.renderStyles⟩

/-- Previews and failed calls leave no trace. Let `e` be a new engine with the
bundled plugins and any pattern rules. Every run of it can be repeated without such
calls, with one more of them anywhere it comes to a result, and any two runs of it
that consist of the same calls but for previews and failed calls have the same
events in these calls: answers, stores, and what listeners have done. -/
theorem Run.traceless {draft : Draft} {shared : σ}
    {selectorPatterns : Table String (PatternRule (List String))}
    {shortcutPatterns : Table String (PatternRule (List StyleItem))} {e : Engine σ}
    {warnings : List Warning}
    (hcreate : create ⟨draft, [.coreWith selectorPatterns shortcutPatterns]⟩ shared =
      some (.ok (e, warnings))) :
    (∀ events e₁ events', Run e events e₁ → Thins events events' →
      ∃ e₂, Run e events' e₂ ∧ LooksLike e₁ e₂) ∧
    (∀ before m after e₁ b c answer m', Run e before m → Run m after e₁ →
      Call.perform b c m = some (answer, m') → (m'.event c answer).Traceless →
      ∃ e₂, Run e (before ++ m'.event c answer :: after) e₂ ∧ LooksLike e₁ e₂) ∧
    (∀ events₁ e₁ kept₁ events₂ e₂ kept₂, Run e events₁ e₁ → Run e events₂ e₂ →
      Thins events₁ kept₁ → Thins events₂ kept₂ →
      kept₁.map Event.call = kept₂.map Event.call → kept₁ = kept₂ ∧ LooksLike e₁ e₂) := by
  have hself := Alike.refl (speaks_of_create hcreate)
  refine ⟨?_, ?_, ?_⟩
  · intro events e₁ events' hrun hthins
    obtain ⟨e₂, hrun', halike⟩ := hrun.thin hself hthins
    exact ⟨e₂, hrun', halike.looksLike⟩
  · intro before m after e₁ b c answer m' hbefore hafter hcall htraceless
    obtain ⟨_, -, hm⟩ := hbefore.thin hself (Thins.refl before)
    have hsame := perform_traceless hm.left hcall htraceless
    obtain ⟨e₂, hafter', halike⟩ := hafter.thin hsame (Thins.refl after)
    exact ⟨e₂, hbefore.append (.cons hcall hafter'), halike.looksLike⟩
  · intro events₁ e₁ kept₁ events₂ e₂ kept₂ h₁ h₂ hthins₁ hthins₂ hcalls
    obtain ⟨e₁', hrun₁, halike₁⟩ := h₁.thin hself hthins₁
    obtain ⟨e₂', hrun₂, halike₂⟩ := h₂.thin hself hthins₂
    obtain ⟨rfl, halike⟩ := hrun₁.unique hself hrun₂ hcalls
    exact ⟨rfl, ((halike₁.trans halike).trans halike₂.symm).looksLike⟩

/-! ## A run with a failed preview -/

/-- A configuration with a shortcut that names itself and one for red text. -/
def loopDraft : Draft where
  namePrefix := some "x-"
  extra := [("shortcuts", .array [.array [.string "loop", .string "loop"],
    .array [.string "red", .object [("color", .string "red")]]])]

/-- The rules of its shortcuts. -/
def loopShortcuts : AliasRules (List StyleItem) where
  statics := [("loop", ⟨"loop", "loop", [.shortcut "loop"]⟩),
    ("red", ⟨"red", "red", [.definition [("color", .property (.scalar (.text "red")))]]⟩)]

/-- The new engine of this configuration. What is shared is a log of rules. -/
def loopEngine : Engine (List AtomicRule) where
  config := { namePrefix := "x-", extra := loopDraft.extra }
  pipeline := ⟨Pipeline.bundled {} loopShortcuts [] false, []⟩

/-- The engine with a listener that writes new rules into the log. -/
def listeningEngine : Engine (List AtomicRule) := loopEngine.listen fun r log => log ++ [r]

/-- The engine after a preview of the shortcut that names itself. -/
def failedEngine : Engine (List AtomicRule) where
  config := listeningEngine.config
  pipeline := ⟨Pipeline.bundled {} (loopShortcuts.remember "loop" [.shortcut "loop"]) [] false, []⟩
  listeners := listeningEngine.listeners

/-- The declaration of red text. -/
def redText : Declaration := ⟨[".$$"], "color", ["red"]⟩

/-- The engine after the use of red text. -/
def usedEngine : Engine (List AtomicRule) where
  config := failedEngine.config
  pipeline := ⟨Pipeline.bundled {} ((loopShortcuts.remember "loop" [.shortcut "loop"]).remember
    "red" [.definition [("color", .property (.scalar (.text "red")))]]) [] false,
    [⟨"x-a", redText⟩]⟩
  store := {
    names := [(redText.key, "x-a")]
    entries := [("x-a", ⟨"x-a", redText⟩)] }
  shortcuts := [("red", [.assignment ⟨[".$$"], "color", some ["red"]⟩])]
  listeners := failedEngine.listeners

/-- Without its failed preview the run is the same: the use is answered alike, and
the same rule is logged. -/
theorem Run.traceless_failed :
    let listened := listeningEngine.event (.listen fun r log => log ++ [r]) (.ok .done)
    let failed := failedEngine.event (.preview [.shortcut "loop"])
      (.error (.cyclic .shortcut ["loop", "loop"]))
    let used := usedEngine.event (.use [.shortcut "red"]) (.ok (.outcome ⟨["x-a"], []⟩))
    create ⟨loopDraft, [.coreWith [] []]⟩ [] = some (.ok (loopEngine, [])) ∧
      Run loopEngine [listened, failed, used] usedEngine ∧
      ∃ e, Run loopEngine [listened, used] e ∧ LooksLike usedEngine e := by
  intro listened failed used
  have hcreate : create ⟨loopDraft, [.coreWith [] []]⟩ [] =
      some (.ok (loopEngine, [])) := by rfl
  have hlisten : listened.call.perform 0 loopEngine =
      some (listened.answer, listeningEngine) := rfl
  have hfail : Call.perform 2 (.preview [.shortcut "loop"]) listeningEngine =
      some (.error (.cyclic .shortcut ["loop", "loop"]), failedEngine) := by rfl
  have huse : Call.perform 2 (.use [.shortcut "red"]) failedEngine =
      some (.ok (.outcome ⟨["x-a"], []⟩), usedEngine) := by rfl
  have hrun : Run loopEngine [listened, failed, used] usedEngine :=
    .cons hlisten (.cons hfail (.cons huse (.nil _)))
  have hthins : Thins [listened, failed, used] [listened, used] :=
    .keep (.drop (.inl ⟨_, rfl⟩) (.keep .nil))
  exact ⟨hcreate, hrun, (Run.traceless hcreate).1 _ _ _ hrun hthins⟩

end Engine

end AtomicCss
