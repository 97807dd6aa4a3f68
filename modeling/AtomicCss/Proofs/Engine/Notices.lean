import AtomicCss.Proofs.Engine.Logging

/-!
# Who is told of a rule

Listeners and plugins do what they like with the state that they share, so that state
does not show whether they were told of a rule. A watched engine is an engine beside
whose shared state every notice is written down; nothing else in it is different.

- `Notice`, `Engine.watched`: the engine with a log of its notices.
- `Engine.watched_eq_logged`: it is the logged engine that tells no places apart.
- `Engine.mirrors_extractAll`: items are read without a notice, whatever plugins do.
- `Engine.addSlots_watched`: slots are entered with the notices of the rules appended.
- `Engine.all_or_nothing`: a call that fails, and a preview, tells nobody of anything and
  leaves the store as it was.
-/

namespace AtomicCss

variable {σ : Type}

/-! ## Watched engines -/

/-- A listener was told of a rule, or a plugin of one's own was told that there is one. -/
inductive Notice where
  | listener (r : AtomicRule)
  | plugin (name : String)
  deriving DecidableEq, Repr

/-- A hook that leaves the log alone. -/
def Hooks.silent {α β : Type} (hook : α → σ → β × σ) (a : α) (s : σ × List Notice) :
    β × (σ × List Notice) :=
  ((hook a s.1).1, ((hook a s.1).2, s.2))

/-- The hooks of a plugin, beside whose state the notices are written down. -/
def Hooks.watched (hooks : Hooks σ) : Hooks (σ × List Notice) where
  name := hooks.name
  stage := hooks.stage
  configDraft := silent hooks.configDraft
  configSettled := silent hooks.configSettled
  selectors := silent hooks.selectors
  items := silent hooks.items
  definitions := silent hooks.definitions
  ruleAdded s := (hooks.ruleAdded s.1, s.2 ++ [.plugin hooks.name])

/-- A plugin whose notices are written down. -/
def Plugin.watched : Plugin σ → Plugin (σ × List Notice)
  | .selectors aliases => .selectors aliases
  | .shortcuts aliases => .shortcuts aliases
  | .variables declared => .variables declared
  | .keyframes => .keyframes
  | .important standard => .important standard
  | .custom hooks => .custom hooks.watched

/-- What a plugin is told of a new rule. The bundled ones do not listen. -/
def Plugin.notices : Plugin σ → List Notice
  | .custom hooks => [.plugin hooks.name]
  | _ => []

/-- A listener whose notices are written down. -/
def watchedListener (listener : AtomicRule → σ → σ) (r : AtomicRule) (s : σ × List Notice) :
    σ × List Notice :=
  (listener r s.1, s.2 ++ [.listener r])

/-- A pipeline with a log of the notices to its plugins. -/
def Pipeline.watched (log : List Notice) (p : Pipeline σ) : Pipeline (σ × List Notice) :=
  ⟨p.plugins.map Plugin.watched, (p.shared, log)⟩

namespace Engine

/-- An engine with a log of its notices. -/
def watched (log : List Notice) (e : Engine σ) : Engine (σ × List Notice) where
  config := e.config
  pipeline := e.pipeline.watched log
  store := e.store
  shortcuts := e.shortcuts
  listeners := e.listeners.map watchedListener

/-- The notices of a new rule: to the listeners first, then to the plugins. -/
def notices (e : Engine σ) (r : AtomicRule) : List Notice :=
  e.listeners.map (fun _ => .listener r) ++ e.pipeline.plugins.flatMap Plugin.notices

end Engine

/-! ## Watched engines as logged ones -/

/-- A notice is written down for every listener and every plugin, whatever its place. -/
def noticeScribe : Scribe σ Notice := ⟨fun _ r => .listener r, fun _ hooks => .plugin hooks.name⟩

variable {log : List Notice} {b : Nat}

theorem mapIdx_placeless {α β : Type} (f : α → β) (as : List α) :
    as.mapIdx (fun _ a => f a) = as.map f := by
  refine List.ext_getElem? fun i => ?_
  rw [List.getElem?_mapIdx, List.getElem?_map]

namespace Engine

open Walk

theorem watched_eq_logged : watched (σ := σ) log = logged noticeScribe log := by
  funext e
  have hplugin : Plugin.watched (σ := σ) =
      Plugin.logged fun hooks : Hooks σ => Notice.plugin hooks.name := by
    funext p
    cases p <;> rfl
  have hplugins : e.pipeline.watched log = e.pipeline.logged noticeScribe log := by
    rw [Pipeline.watched, hplugin, ← mapIdx_placeless]
    rfl
  have hlisteners : e.listeners.map watchedListener = e.listeners.mapIdx noticeScribe.tapped :=
    (mapIdx_placeless watchedListener e.listeners).symm
  rw [watched, logged, hplugins, hlisteners]

theorem notices_eq_entries (e : Engine σ) : e.notices = e.entries noticeScribe := by
  funext r
  have hplugins (ps : List (Plugin σ)) : ps.flatMap Plugin.notices =
      ((ps.map Plugin.hooks?).map
        fun hooks => (hooks.map fun h : Hooks σ => Notice.plugin h.name).toList).flatten := by
    induction ps with
    | nil => rfl
    | cons p ps ih =>
      rw [List.flatMap_cons, ih]
      cases p <;> rfl
  rw [notices, entries, hplugins, ← mapIdx_placeless, ← mapIdx_placeless]
  rfl

/-- Items are read without a notice, whatever comes of it. -/
theorem mirrors_extractAll (items : List StyleItem) :
    Mirrors (watched (σ := σ) log) (extractAll b items) (extractAll b items) :=
  watched_eq_logged ▸ mirrors_extractAll_logged items

theorem mirrors_previewStyles (items : List StyleItem) :
    Mirrors (watched (σ := σ) log) (previewStyles b items) (previewStyles b items) :=
  watched_eq_logged ▸ mirrors_previewStyles_logged items

/-- Slots are entered with the notices of the rules that are appended, rule by rule. -/
theorem addSlots_watched (slots : List Slot) {e : Engine σ} {o : UseOutcome}
    (he : e.StoreCanonical) : ∃ added,
      (e.addSlots o slots).2.store.rules = e.store.rules ++ added ∧
      ∀ log, (e.watched log).addSlots o slots = ((e.addSlots o slots).1,
        (e.addSlots o slots).2.watched (log ++ added.flatMap e.notices)) := by
  simp only [watched_eq_logged, notices_eq_entries]
  exact addSlots_logged slots he

/-- The notices of a rule are those that it would have had before. -/
theorem notices_addSlots (slots : List Slot) (e : Engine σ) (o : UseOutcome) :
    (e.addSlots o slots).2.notices = e.notices := by
  obtain ⟨hlisteners, hhooks⟩ := addSlots_observers slots e o
  rw [notices_eq_entries, notices_eq_entries, entries_congr hlisteners hhooks]

/-! ## Calls -/

/-- All or nothing. A use that fails, with the error of a plugin at any depth or with
that of a cycle, and a preview, whatever comes of it, leave the configuration, the store
and the listeners as they were, and tell no listener and no plugin of anything. A use
that succeeds appends rules and tells of each of them, in order. -/
theorem all_or_nothing (e : Engine σ) (log : List Notice) (b : Nat) (items : List StyleItem) :
    (∀ err e', useStyles b items e = some (.error err, e') → e'.fixed = e.fixed ∧
      useStyles b items (e.watched log) = some (.error err, e'.watched log)) ∧
    (∀ shown e', previewStyles b items e = some (shown, e') → e'.fixed = e.fixed ∧
      previewStyles b items (e.watched log) = some (shown, e'.watched log)) ∧
    (e.StoreCanonical → ∀ o e', useStyles b items e = some (.ok o, e') → ∃ added,
      e'.store.rules = e.store.rules ++ added ∧ useStyles b items (e.watched log) =
        some (.ok o, e'.watched (log ++ added.flatMap e'.notices))) := by
  have hread {read : Except Error (List Extracted)} {m : Engine σ}
      (h : extractAll b items e = some (read, m)) :
      extractAll b items (e.watched log) = some (read, m.watched log) := by
    rw [mirrors_extractAll items e, h]
    rfl
  refine ⟨fun err e' h => ?_, fun shown e' h => ?_, fun he o e' h => ?_⟩
  · -- a use that fails has failed at reading
    rcases useStyles_eq_some.1 h with ⟨err', hfailed, herr⟩ | ⟨_, _, -, hok, -⟩
    · exact ⟨preserves_extractAll _ _ _ _ _ hfailed,
        useStyles_eq_some.2 (.inl ⟨err', hread hfailed, herr⟩)⟩
    · cases hok
  · obtain ⟨read, hextracted, -⟩ := previewStyles_eq_some.1 h
    refine ⟨preserves_extractAll _ _ _ _ _ hextracted, ?_⟩
    rw [mirrors_previewStyles items e, h]
    rfl
  · rcases useStyles_eq_some.1 h with ⟨_, -, herr⟩ | ⟨parts, m, hextracted, ho, rfl⟩
    · cases herr
    obtain rfl := Except.ok.inj ho
    have hfixed := preserves_extractAll _ _ _ _ _ hextracted
    obtain ⟨hm, -⟩ := storeCanonical_of_fixed hfixed he
    obtain ⟨added, hrules, hlog⟩ := addSlots_watched (merge parts) (o := {}) hm
    have hstore : m.store = e.store := congrArg (fun x => x.2.1) hfixed
    refine ⟨added, by rw [hrules, hstore], ?_⟩
    refine useStyles_eq_some.2 (.inr ⟨parts, _, hread hextracted, ?_, ?_⟩)
    · rw [hlog]
    · rw [hlog, notices_addSlots]

/-- A plugin that refuses visited links, and that counts rules. -/
def guardPlugin : Plugin Nat :=
  .custom {
    name := "guard"
    selectors := fun chain n =>
      (if "&:visited" ∈ chain then .error (.plugin "guard" "visited") else .ok none, n)
    ruleAdded := (· + 1) }

/-- An engine with this plugin and a listener that counts rules by tens. -/
def guardedEngine : Engine Nat where
  config := { namePrefix := "x-" }
  pipeline := ⟨[guardPlugin], 0⟩
  listeners := [fun _ n => n + 10]

/-- A use fails two levels deep, behind red text that it has read and a name that it has
kept, and tells nobody. Red text alone is previewed without a notice, and used with one
to the listener and one to the plugin. -/
theorem all_or_nothing_visited :
    let red : String × StyleValue := ("color", .property (.scalar (.text "red")))
    let visited : StyleItem := .definition [red, ("@media print", .nested [("&:visited",
      .nested [red])])]
    let rule : AtomicRule := ⟨"x-a", ⟨[".$$"], "color", ["red"]⟩⟩
    (∃ e', useStyles 3 [.shortcut "mystery", visited] guardedEngine =
        some (.error (.plugin "guard" "visited"), e') ∧
      useStyles 3 [.shortcut "mystery", visited] (guardedEngine.watched []) =
        some (.error (.plugin "guard" "visited"), e'.watched []) ∧ e'.store = {}) ∧
    (∃ e', previewStyles 1 [.definition [red]] guardedEngine =
        some (.ok ".$$\x7bcolor:red\x7d", e') ∧
      previewStyles 1 [.definition [red]] (guardedEngine.watched []) =
        some (.ok ".$$\x7bcolor:red\x7d", e'.watched []) ∧ e'.store = {}) ∧
    (∃ e', useStyles 1 [.definition [red]] guardedEngine = some (.ok ⟨["x-a"], []⟩, e') ∧
      useStyles 1 [.definition [red]] (guardedEngine.watched []) =
        some (.ok ⟨["x-a"], []⟩, e'.watched [.listener rule, .plugin "guard"])) := by
  intro red visited rule
  obtain ⟨e₁, hfailed⟩ : ∃ e', useStyles 3 [.shortcut "mystery", visited] guardedEngine =
      some (.error (.plugin "guard" "visited"), e') := ⟨_, by rfl⟩
  have hshown : (previewStyles 1 [.definition [red]] guardedEngine).map Prod.fst =
      some (.ok ".$$\x7bcolor:red\x7d") := by rfl
  obtain ⟨⟨_, e₂⟩, hpreview, rfl⟩ := Option.map_eq_some_iff.1 hshown
  obtain ⟨e₃, huse, hrules, hnotices⟩ : ∃ e', useStyles 1 [.definition [red]] guardedEngine =
      some (.ok ⟨["x-a"], []⟩, e') ∧ e'.store.rules = [rule] ∧
      e'.notices rule = [.listener rule, .plugin "guard"] := ⟨_, by rfl, by rfl, by rfl⟩
  obtain ⟨hfixed₁, hsilent₁⟩ := (all_or_nothing guardedEngine [] _ _).1 _ e₁ hfailed
  obtain ⟨hfixed₂, hsilent₂⟩ := (all_or_nothing guardedEngine [] _ _).2.1 _ e₂ hpreview
  obtain ⟨added, hadded, hlogged⟩ := (all_or_nothing guardedEngine [] _ _).2.2
    Store.canonical_empty _ e₃ huse
  obtain rfl : added = [rule] := hadded.symm.trans hrules
  refine ⟨⟨e₁, hfailed, hsilent₁, congrArg (fun x => x.2.1) hfixed₁⟩,
    ⟨e₂, hpreview, hsilent₂, congrArg (fun x => x.2.1) hfixed₂⟩, e₃, huse, ?_⟩
  rw [hlogged, List.flatMap_singleton, hnotices, List.nil_append]

end Engine

end AtomicCss
