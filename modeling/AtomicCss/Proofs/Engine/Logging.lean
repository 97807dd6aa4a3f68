import AtomicCss.Proofs.Engine.Naming
import AtomicCss.Proofs.Plugin.Dispatch
import Mathlib.Data.List.Nodup

/-!
# Engines with a log

What listeners and plugins do to the state that they share does not show that they were
called. A logged engine writes an entry down wherever a listener or a plugin of one's own
is told of a rule, beside the shared state and without any effect on it.

- `Walk.Mirrors image w w'`: the walk `w'` does to the image of a state what `w` does to
  the state. Built up like the walks themselves.
- `Scribe`, `Engine.logged`: which entries are written, and the engine that writes them.
- `Engine.mirrors_extractAll_logged`: items are read without an entry.
- `Engine.preserves_hooks`: reading items leaves the plugins of one's own as they are.
- `Engine.addSlots_logged`: slots are entered with the entries of the rules appended.
- `Engine.useStyles_logged`: so is a use, and one that fails writes nothing.
-/

namespace AtomicCss

variable {σ N : Type}

/-! ## Walks on images of states -/

namespace Walk

variable {τ σ' τ' α β : Type} {image : σ → τ}

/-- The walk `w'` does to the image of a state what the walk `w` does to the state. -/
def Mirrors (image : σ → τ) (w : Walk σ α) (w' : Walk τ α) : Prop :=
  ∀ s, w' (image s) = (w s).map fun x => (x.1, image x.2)

theorem mirrors_pure (a : α) : Mirrors image (pure a) (pure a) := fun _ => rfl

theorem mirrors_unfinished : Mirrors image (unfinished : Walk σ α) unfinished := fun _ => rfl

/-- A walk on the image may look at the image where the other one looks at the state. -/
theorem mirrors_get {f : σ → Walk σ α} {f' : τ → Walk τ α}
    (h : ∀ s, Mirrors image (f s) (f' (image s))) : Mirrors image (get >>= f) (get >>= f') :=
  fun s => h s s

theorem mirrors_modify {f : σ → σ} {f' : τ → τ} (h : ∀ s, f' (image s) = image (f s)) :
    Mirrors image (modify f : Walk σ PUnit) (modify f') := by
  intro s
  simp [h s]

/-- Mirrored walks one after the other are mirrored: the second starts in the image of where the
first has led. -/
theorem mirrors_bind {w : Walk σ α} {w' : Walk τ α} {f : α → Walk σ β} {f' : α → Walk τ β}
    (hw : Mirrors image w w') (hf : ∀ a, Mirrors image (f a) (f' a)) :
    Mirrors image (w >>= f) (w' >>= f') := by
  intro s
  rw [bind_run, bind_run, hw s]
  rcases w s with _ | ⟨_ | a, s₁⟩
  · rfl
  · rfl
  · exact hf a s₁

/-- A walk through a list is mirrored if the walk of each element is. -/
theorem mirrors_collect {f : α → Walk σ (List β)} {f' : α → Walk τ (List β)}
    (hf : ∀ a, Mirrors image (f a) (f' a)) :
    ∀ as, Mirrors image (collect f as) (collect f' as)
  | [] => mirrors_pure []
  | a :: as =>
    mirrors_bind (hf a) fun _ => mirrors_bind (mirrors_collect hf as) fun _ => mirrors_pure _

/-- Walks on parts of states, where the image of the part is the part of the image. -/
theorem mirrors_within {part : σ' → τ'} {get : σ → σ'} {set : σ' → σ → σ} {get' : τ → τ'}
    {set' : τ' → τ → τ} {w : Walk σ' α} {w' : Walk τ' α} (hw : Mirrors part w w')
    (hget : ∀ s, get' (image s) = part (get s))
    (hset : ∀ p s, set' (part p) (image s) = image (set p s)) :
    Mirrors image (within get set w) (within get' set' w') := by
  intro s
  unfold within
  rw [hget, hw]
  cases w (get s) with
  | none => rfl
  | some x => simp [hset]

end Walk

open Walk

/-! ## Logs -/

/-- The entries that are written down of a rule: for a listener by its place among the
listeners, for a plugin by its place among the plugins. -/
structure Scribe (σ N : Type) where
  listener : Nat → AtomicRule → N
  plugin : Nat → Hooks σ → N

/-- A hook that leaves alone what is kept beside its state. -/
def Hooks.beside {α β τ : Type} (hook : α → σ → β × σ) (a : α) (s : σ × τ) : β × (σ × τ) :=
  ((hook a s.1).1, ((hook a s.1).2, s.2))

/-- The hooks of a plugin, which writes an entry down whenever it is told of a rule. -/
def Hooks.logged (entry : N) (hooks : Hooks σ) : Hooks (σ × List N) where
  name := hooks.name
  stage := hooks.stage
  configDraft := beside hooks.configDraft
  configSettled := beside hooks.configSettled
  selectors := beside hooks.selectors
  items := beside hooks.items
  definitions := beside hooks.definitions
  ruleAdded s := (hooks.ruleAdded s.1, s.2 ++ [entry])

namespace Plugin

/-- The hooks of a plugin of one's own. -/
def hooks? : Plugin σ → Option (Hooks σ)
  | .custom hooks => some hooks
  | _ => none

/-- A plugin that writes down when it is told of a rule. The bundled ones do not listen. -/
def logged (entry : Hooks σ → N) : Plugin σ → Plugin (σ × List N)
  | .selectors aliases => .selectors aliases
  | .shortcuts aliases => .shortcuts aliases
  | .variables declared => .variables declared
  | .keyframes => .keyframes
  | .important standard => .important standard
  | .custom hooks => .custom (hooks.logged (entry hooks))

end Plugin

namespace Pipeline

/-- The hooks of the plugins of one's own, in their places. -/
def hooks (p : Pipeline σ) : List (Option (Hooks σ)) := p.plugins.map Plugin.hooks?

/-- A pipeline with a log of what its plugins are told. -/
def logged (w : Scribe σ N) (log : List N) (p : Pipeline σ) : Pipeline (σ × List N) :=
  ⟨p.plugins.mapIdx fun place plugin => plugin.logged (w.plugin place), (p.shared, log)⟩

end Pipeline

/-- A listener in its place, which writes down what it is told. -/
def Scribe.tapped (w : Scribe σ N) (place : Nat) (listener : AtomicRule → σ → σ)
    (r : AtomicRule) (s : σ × List N) : σ × List N :=
  (listener r s.1, s.2 ++ [w.listener place r])

namespace Engine

/-- An engine with a log of what its listeners and its plugins are told. -/
def logged (w : Scribe σ N) (log : List N) (e : Engine σ) : Engine (σ × List N) where
  config := e.config
  pipeline := e.pipeline.logged w log
  store := e.store
  shortcuts := e.shortcuts
  listeners := e.listeners.mapIdx w.tapped

/-- The entries of a new rule: of the listeners first, then of the plugins. -/
def entries (w : Scribe σ N) (e : Engine σ) (r : AtomicRule) : List N :=
  (e.listeners.mapIdx fun place _ => w.listener place r) ++
    (e.pipeline.hooks.mapIdx fun place hooks => (hooks.map (w.plugin place)).toList).flatten

end Engine

variable {w : Scribe σ N} {log : List N} {b : Nat}

/-! ## Hooks -/

namespace Plugin

variable {α : Type}

/-- The second hook does to a logged plugin what the first one does to the plugin, and
writes nothing down. -/
def Silent (log : List N) (hook : Plugin σ → α → σ → HookResult σ α)
    (hook' : Plugin (σ × List N) → α → σ × List N → HookResult (σ × List N) α) : Prop :=
  ∀ (entry : Hooks σ → N) p a s, hook' (p.logged entry) a (s, log) =
    (hook p a s).map fun x => (x.1, x.2.1.logged entry, (x.2.2, log))

/-- The hook leaves the hooks of a plugin of one's own as they are. -/
def KeepsHooks (hook : Plugin σ → α → σ → HookResult σ α) : Prop :=
  ∀ p a s x, hook p a s = some x → x.2.1.hooks? = p.hooks?

/-- A bundled plugin that walks on its own rules does not see the log. -/
theorem ofWalk_logged {ρ : Type} {entry : Hooks σ → N} (make : ρ → Plugin σ)
    (make' : ρ → Plugin (σ × List N)) (hmake : ∀ rules, (make rules).logged entry = make' rules)
    (w : Walk ρ α) (rules : ρ) (s : σ) :
    ofWalk make' w rules (s, log) =
      (ofWalk make w rules s).map fun x => (x.1, x.2.1.logged entry, (x.2.2, log)) := by
  unfold ofWalk
  rcases w rules with _ | ⟨_ | _, _⟩ <;> simp [hmake]

/-- A bundled plugin is still a bundled one after a walk on its rules. -/
theorem hooks?_ofWalk {ρ : Type} {make : ρ → Plugin σ} (hmake : ∀ rules, (make rules).hooks? = none)
    {w : Walk ρ α} {rules : ρ} {s : σ} {x : Except Error (Option α) × Plugin σ × σ}
    (h : ofWalk make w rules s = some x) : x.2.1.hooks? = none := by
  unfold ofWalk at h
  split at h
  · cases h
  · obtain rfl := Option.some.inj h
    exact hmake _
  · obtain rfl := Option.some.inj h
    exact hmake _

theorem silent_configDraft : Silent log (configDraft (σ := σ)) configDraft := by
  intro entry p d s
  cases p <;> rfl

/-- Aliases are read without a look at the log. -/
theorem configAliases_logged {ρ : Type} {entry : Hooks σ → N}
    (make : AliasRules (List ρ) → Plugin σ) (make' : AliasRules (List ρ) → Plugin (σ × List N))
    (hmake : ∀ aliases, (make aliases).logged entry = make' aliases) (key : String)
    (form : Json → Option ρ) (aliases : AliasRules (List ρ)) (c : Settling) (s : σ) :
    configAliases make' key form aliases c (s, log) =
      (configAliases make key form aliases c s).map fun x =>
        (x.1, x.2.1.logged entry, (x.2.2, log)) := by
  unfold configAliases
  cases aliasEntry key form c.1 <;> simp [hmake]

/-- Settling the configuration writes nothing down, whatever the plugin takes from it. -/
theorem silent_configSettled : Silent log (configSettled (σ := σ)) configSettled := by
  intro entry p c s
  match p with
  | .selectors aliases =>
    exact configAliases_logged .selectors .selectors (fun _ => rfl) _ _ aliases c s
  | .shortcuts aliases =>
    exact configAliases_logged .shortcuts .shortcuts (fun _ => rfl) _ _ aliases c s
  | .variables declared =>
    simp only [configSettled, logged]
    rcases Variables.configure c.1 with ⟨_, _ | _⟩ <;> rfl
  | .keyframes =>
    simp only [configSettled, logged]
    cases Keyframes.configure c.1 <;> rfl
  | .important standard =>
    simp only [configSettled, logged]
    cases Important.configure c.1 <;> rfl
  | .custom hooks =>
    simp only [configSettled, logged, Hooks.logged, Hooks.beside]
    rcases hooks.configSettled c.1 s with ⟨_ | _ | _, _⟩ <;> rfl

theorem silent_transformSelectors :
    Silent log (transformSelectors (σ := σ) b) (transformSelectors b) := by
  intro entry p chain s
  cases p with
  | selectors aliases => exact ofWalk_logged .selectors .selectors (fun _ => rfl) _ aliases s
  | _ => rfl

theorem silent_transformItems : Silent log (transformItems (σ := σ) b) (transformItems b) := by
  intro entry p items s
  cases p with
  | shortcuts aliases => exact ofWalk_logged .shortcuts .shortcuts (fun _ => rfl) _ aliases s
  | _ => rfl

theorem silent_transformDefinitions :
    Silent log (transformDefinitions (σ := σ)) transformDefinitions := by
  intro entry p ds s
  cases p <;> rfl

theorem keepsHooks_transformSelectors : KeepsHooks (transformSelectors (σ := σ) b) := by
  intro p chain s x h
  cases p with
  | selectors aliases => exact hooks?_ofWalk (fun _ => rfl) h
  | _ => obtain rfl := Option.some.inj h; rfl

theorem keepsHooks_transformItems : KeepsHooks (transformItems (σ := σ) b) := by
  intro p items s x h
  cases p with
  | shortcuts aliases => exact hooks?_ofWalk (fun _ => rfl) h
  | _ => obtain rfl := Option.some.inj h; rfl

theorem keepsHooks_transformDefinitions : KeepsHooks (transformDefinitions (σ := σ)) := by
  intro p ds s x h
  cases p <;> (obtain rfl := Option.some.inj h; rfl)

end Plugin

namespace Pipeline

variable {α : Type} {hook : Plugin σ → α → σ → HookResult σ α}

/-- If the hook of each plugin writes nothing down, that of the pipeline does not. -/
theorem mirrors_run {hook' : Plugin (σ × List N) → α → σ × List N → HookResult (σ × List N) α}
    (h : Plugin.Silent log hook hook') (a : α) :
    Mirrors (logged w log) (run hook a) (run hook' a) := by
  have hthrough (entry : Nat → Hooks σ → N) (ps : List (Plugin σ)) (a : α) (s : σ) :
      through hook' (ps.mapIdx fun place p => p.logged (entry place)) a (s, log) =
        (through hook ps a s).map fun x =>
          (x.1, x.2.1.mapIdx fun place p => p.logged (entry place), (x.2.2, log)) := by
    induction ps generalizing entry a s with
    | nil => rfl
    | cons p ps ih =>
      rw [List.mapIdx_cons, through, through, h]
      rcases hook p a s with _ | ⟨_ | answer, p', s'⟩
      · rfl
      · simp
      · -- the answer of the first plugin goes on to the others
        dsimp only [Option.map_some]
        rw [ih fun place => entry (place + 1)]
        cases through hook ps (answer.getD a) s' <;> simp
  intro p
  unfold run
  rw [show through hook' (logged w log p).plugins a (logged w log p).shared = _ from
    hthrough w.plugin p.plugins a p.shared]
  cases through hook p.plugins a p.shared <;> rfl

/-- A pipeline keeps the hooks of its plugins if each plugin keeps its own. -/
theorem preserves_run (h : Plugin.KeepsHooks hook) (a : α) :
    Preserves hooks (run hook a) :=
  fun _ _ _ hrun => map_plugins_run h hrun

end Pipeline

/-- Plugins are set up without an entry. -/
theorem Engine.mirrors_settle (draft : Draft) :
    Mirrors (Pipeline.logged (σ := σ) w log) (settle draft) (settle draft) :=
  mirrors_bind (Pipeline.mirrors_run Plugin.silent_configDraft draft) fun draft =>
    Pipeline.mirrors_run Plugin.silent_configSettled (draft.settle)

/-! ## Reading items -/

namespace Extraction

section

variable {deeper : List String → StyleDefinition → Walk (Pipeline σ) (List Extracted)}
  {deeper' : List String → StyleDefinition → Walk (Pipeline (σ × List N)) (List Extracted)}

/-- Items are read without an entry if the definitions are. -/
theorem mirrors_itemsWith
    (h : ∀ chain d, Mirrors (Pipeline.logged w log) (deeper chain d) (deeper' chain d))
    (chain : List String) (items : List StyleItem) :
    Mirrors (Pipeline.logged w log) (itemsWith b deeper chain items)
      (itemsWith b deeper' chain items) := by
  refine mirrors_bind (Pipeline.mirrors_run Plugin.silent_transformItems items) fun items => ?_
  refine mirrors_collect (fun item => ?_) items
  cases item with
  | shortcut name => exact mirrors_pure _
  | definition d => exact h chain d

/-- A key of a definition is read without writing anything down if what is nested behind it is. -/
theorem mirrors_entryWith
    (h : ∀ chain d, Mirrors (Pipeline.logged w log) (deeper chain d) (deeper' chain d))
    (chain selectors : List String) : ∀ entry : String × StyleValue,
      Mirrors (Pipeline.logged w log) (entryWith b deeper chain selectors entry)
        (entryWith b deeper' chain selectors entry)
  | (_, .property _) => mirrors_pure _
  | (_, .nested d) => h _ d
  | (_, .items items) => mirrors_itemsWith h _ items

theorem preserves_itemsWith (h : ∀ chain d, Preserves Pipeline.hooks (deeper chain d))
    (chain : List String) (items : List StyleItem) :
    Preserves Pipeline.hooks (itemsWith b deeper chain items) := by
  refine preserves_bind (Pipeline.preserves_run Plugin.keepsHooks_transformItems items) ?_
  refine preserves_collect fun item => ?_
  cases item with
  | shortcut name => exact preserves_pure _
  | definition d => exact h chain d

theorem preserves_entryWith (h : ∀ chain d, Preserves Pipeline.hooks (deeper chain d))
    (chain selectors : List String) : ∀ entry : String × StyleValue,
      Preserves Pipeline.hooks (entryWith b deeper chain selectors entry)
  | (_, .property _) => preserves_pure _
  | (_, .nested d) => h _ d
  | (_, .items items) => preserves_itemsWith h _ items

end

/-- A definition is read without an entry, at every depth. -/
theorem mirrors_definition (host : String) (chain : List String) (d : StyleDefinition) :
    Mirrors (Pipeline.logged (σ := σ) w log) (definition host b chain d)
      (definition host b chain d) := by
  induction b generalizing chain d with
  | zero => exact mirrors_unfinished
  | succ b ih =>
    refine mirrors_bind (Pipeline.mirrors_run Plugin.silent_transformSelectors chain) fun _ => ?_
    refine mirrors_bind (Pipeline.mirrors_run Plugin.silent_transformDefinitions [d]) fun ds => ?_
    exact mirrors_collect (fun d => mirrors_collect (mirrors_entryWith ih chain _) d) ds

theorem preserves_definition (host : String) (chain : List String) (d : StyleDefinition) :
    Preserves (Pipeline.hooks (σ := σ)) (definition host b chain d) := by
  induction b generalizing chain d with
  | zero => exact fun _ _ _ h => nomatch h
  | succ b ih =>
    refine preserves_bind (Pipeline.preserves_run Plugin.keepsHooks_transformSelectors chain)
      fun _ => ?_
    refine preserves_bind (Pipeline.preserves_run Plugin.keepsHooks_transformDefinitions [d])
      fun ds => ?_
    exact preserves_collect (fun d => preserves_collect (preserves_entryWith ih chain _) d) ds

end Extraction

namespace Engine

/-- The pipeline of a logged engine is the logged pipeline, so a walk on it is mirrored by the
engine. -/
theorem mirrors_onPipeline {α : Type} {walk : Walk (Pipeline σ) α}
    {walk' : Walk (Pipeline (σ × List N)) α} (h : Mirrors (Pipeline.logged w log) walk walk') :
    Mirrors (logged w log) (onPipeline walk) (onPipeline walk') :=
  mirrors_within h (fun _ => rfl) fun _ _ => rfl

/-- Reading an item writes nothing down. -/
theorem mirrors_extractItem (item : StyleItem) :
    Mirrors (logged (σ := σ) w log) (extractItem b item) (extractItem b item) := by
  cases item with
  | definition d =>
    exact mirrors_get fun e =>
      mirrors_onPipeline (Extraction.mirrors_definition e.config.defaultSelector [] d)
  | shortcut name =>
    refine mirrors_get fun e => ?_
    dsimp only [logged]
    cases Table.get? e.shortcuts name with
    | some parts => exact mirrors_pure parts
    | none =>
      refine mirrors_bind (mirrors_onPipeline (Extraction.mirrors_itemsWith
        (Extraction.mirrors_definition e.config.defaultSelector) [] [.shortcut name]))
        fun parts => ?_
      exact mirrors_bind (mirrors_modify fun _ => rfl) fun _ => mirrors_pure parts

/-- Items are read without an entry, whatever comes of it. -/
theorem mirrors_extractAll_logged (items : List StyleItem) :
    Mirrors (logged (σ := σ) w log) (extractAll b items) (extractAll b items) :=
  mirrors_collect mirrors_extractItem items

/-- A preview writes nothing down. -/
theorem mirrors_previewStyles_logged (items : List StyleItem) :
    Mirrors (logged (σ := σ) w log) (previewStyles b items) (previewStyles b items) :=
  mirrors_bind (mirrors_extractAll_logged items) fun _ => mirrors_pure _

/-- The hooks of the plugins of one's own, in their places. -/
def hooks (e : Engine σ) : List (Option (Hooks σ)) := e.pipeline.hooks

/-- The hooks of an engine are those of its pipeline, so what keeps them there keeps them in the
engine. -/
theorem preserves_hooks_onPipeline {α : Type} {walk : Walk (Pipeline σ) α}
    (h : Preserves Pipeline.hooks walk) : Preserves hooks (onPipeline walk) := by
  intro e r e' hrun
  unfold onPipeline within at hrun
  split at hrun
  · cases hrun
  · next r p hwalk =>
    obtain ⟨-, rfl⟩ := Prod.mk.inj (Option.some.inj hrun)
    exact h _ _ _ hwalk

theorem preserves_hooks_extractItem (item : StyleItem) :
    Preserves (hooks (σ := σ)) (extractItem b item) := by
  cases item with
  | definition d =>
    exact preserves_bind preserves_get fun e => preserves_hooks_onPipeline
      (Extraction.preserves_definition e.config.defaultSelector [] d)
  | shortcut name =>
    refine preserves_bind preserves_get fun e => ?_
    cases Table.get? e.shortcuts name with
    | some parts => exact preserves_pure parts
    | none =>
      refine preserves_bind (preserves_hooks_onPipeline (Extraction.preserves_itemsWith
        (Extraction.preserves_definition e.config.defaultSelector) [] [.shortcut name]))
        fun parts => ?_
      exact preserves_bind (preserves_modify fun _ => rfl) fun _ => preserves_pure parts

/-- Reading items leaves the plugins of one's own as they are. -/
theorem preserves_hooks (items : List StyleItem) :
    Preserves (hooks (σ := σ)) (extractAll b items) :=
  preserves_collect preserves_hooks_extractItem items

/-! ## Entering declarations -/

/-- Each listener writes its own entry, in the order of the listeners. -/
theorem foldl_tapped (listeners : List (AtomicRule → σ → σ)) (r : AtomicRule) (s : σ) :
    (listeners.mapIdx w.tapped).foldl (fun s listener => listener r s) (s, log) =
      (listeners.foldl (fun s listener => listener r s) s,
        log ++ listeners.mapIdx fun place _ => w.listener place r) := by
  -- the place of the last listener is the number of those before it
  induction listeners using List.reverseRecOn with
  | nil => simp
  | append_singleton listeners listener ih => simp [List.mapIdx_concat, ih, Scribe.tapped]

/-- A plugin of one's own writes one entry, a bundled plugin none. -/
theorem ruleAdded_logged (entry : Hooks σ → N) (p : Plugin σ) (s : σ) (log : List N) :
    (p.logged entry).ruleAdded (s, log) =
      (p.ruleAdded s, log ++ (p.hooks?.map entry).toList) := by
  cases p with
  | custom hooks => rfl
  | _ => exact Prod.ext rfl (List.append_nil log).symm

/-- The plugins write their entries in the order of the pipeline. -/
theorem foldl_ruleAdded_logged (ps : List (Plugin σ)) (s : σ) (log : List N) :
    (ps.mapIdx fun place p => p.logged (w.plugin place)).foldl (fun s p => p.ruleAdded s)
        (s, log) =
      (ps.foldl (fun s p => p.ruleAdded s) s, log ++ ((ps.map Plugin.hooks?).mapIdx
        fun place hooks => (hooks.map (w.plugin place)).toList).flatten) := by
  induction ps using List.reverseRecOn with
  | nil => simp
  | append_singleton ps p ih => simp [List.mapIdx_concat, ih, ruleAdded_logged]

/-- A rule is announced with its entries appended to the log. -/
theorem announce_logged (e : Engine σ) (log : List N) (r : AtomicRule) :
    (e.logged w log).announce r = (e.announce r).logged w (log ++ e.entries w r) := by
  simp only [announce, logged, Pipeline.logged, Pipeline.ruleAdded, entries, Pipeline.hooks,
    ← List.append_assoc, foldl_tapped, foldl_ruleAdded_logged]

/-- Which entries a rule has depends on the listeners and the hooks alone. -/
theorem entries_congr {e e' : Engine σ} (hlisteners : e'.listeners = e.listeners)
    (hhooks : e'.hooks = e.hooks) : e'.entries w = e.entries w := by
  funext r
  rw [entries, entries, hlisteners, show e'.pipeline.hooks = e.pipeline.hooks from hhooks]

/-- Entering a declaration changes neither the listeners nor the plugins. -/
theorem addDeclaration_observers (e : Engine σ) (d : Declaration) :
    (e.addDeclaration d).2.listeners = e.listeners ∧ (e.addDeclaration d).2.hooks = e.hooks := by
  rw [addDeclaration_eq]
  dsimp only
  split <;> exact ⟨rfl, rfl⟩

/-- A declaration is entered with the entries of its rule, if the rule is new. -/
theorem addDeclaration_logged (e : Engine σ) (log : List N) (d : Declaration) :
    (e.logged w log).addDeclaration d = ((e.addDeclaration d).1, (e.addDeclaration d).2.logged w
      (log ++ if (e.store.intern d e.config.namePrefix).1.created then
        e.entries w ⟨(e.store.intern d e.config.namePrefix).1.name, d⟩ else [])) := by
  rw [addDeclaration_eq, addDeclaration_eq]
  show (_, if (e.store.intern d e.config.namePrefix).1.created then _ else _) = _
  dsimp only
  split
  · have hannounce := announce_logged (w := w)
      { e with store := (e.store.intern d e.config.namePrefix).2 } log
      ⟨(e.store.intern d e.config.namePrefix).1.name, d⟩
    exact congrArg (Prod.mk _) hannounce
  · rw [List.append_nil]
    rfl

/-- Entering slots changes neither the listeners nor the hooks. -/
theorem addSlots_observers (slots : List Slot) (e : Engine σ) (o : UseOutcome) :
    (e.addSlots o slots).2.listeners = e.listeners ∧ (e.addSlots o slots).2.hooks = e.hooks := by
  induction slots generalizing e o with
  | nil => exact ⟨rfl, rfl⟩
  | cons slot slots ih =>
    cases slot with
    | unknown name => exact ih e _
    | declaration d =>
      obtain ⟨hlisteners, hhooks⟩ := addDeclaration_observers e d
      rw [addSlots_declaration]
      exact ⟨(ih _ _).1.trans hlisteners, (ih _ _).2.trans hhooks⟩

/-- Slots are entered with the entries of the rules that are appended, rule by rule. -/
theorem addSlots_logged (slots : List Slot) :
    ∀ {e : Engine σ} {o : UseOutcome}, e.StoreCanonical → ∃ added,
      (e.addSlots o slots).2.store.rules = e.store.rules ++ added ∧
      ∀ log, (e.logged w log).addSlots o slots = ((e.addSlots o slots).1,
        (e.addSlots o slots).2.logged w (log ++ added.flatMap (e.entries w))) := by
  induction slots with
  | nil => exact fun _ => ⟨[], by simp [addSlots], fun log => by simp [addSlots]⟩
  | cons slot slots ih =>
    intro e o he
    cases slot with
    | unknown name => exact ih he
    | declaration d =>
      obtain ⟨hd, -, -⟩ := addDeclaration_canonical he d
      obtain ⟨added, hrules, hlog⟩ :=
        ih (o := ⟨o.names ++ [(e.addDeclaration d).1], o.unknown⟩) hd
      obtain ⟨hlisteners, hhooks⟩ := addDeclaration_observers e d
      refine ⟨(if (e.store.intern d e.config.namePrefix).1.created then
        [⟨(e.store.intern d e.config.namePrefix).1.name, d⟩] else []) ++ added, ?_, fun log => ?_⟩
      · rw [addDeclaration_store, Store.rules_intern he, List.append_assoc] at hrules
        exact hrules
      · rw [addSlots_declaration, addSlots_declaration, addDeclaration_logged]
        dsimp only
        rw [hlog, entries_congr hlisteners hhooks, List.flatMap_append, List.append_assoc]
        split <;> simp

/-- A use, whatever comes of it, writes down the entries of the rules that it appends, and
changes neither the listeners nor the plugins. -/
theorem useStyles_logged {e e' : Engine σ} {items : List StyleItem} {r : Except Error UseOutcome}
    (he : e.StoreCanonical) (h : useStyles b items e = some (r, e')) :
    ∃ added, e'.store.rules = e.store.rules ++ added ∧
      (e'.listeners = e.listeners ∧ e'.hooks = e.hooks) ∧
      ∀ log, useStyles b items (e.logged w log) =
        some (r, e'.logged w (log ++ added.flatMap (e.entries w))) := by
  have hread {read : Except Error (List Extracted)} {m : Engine σ} (log : List N)
      (hm : extractAll b items e = some (read, m)) :
      extractAll b items (e.logged w log) = some (read, m.logged w log) := by
    rw [mirrors_extractAll_logged items e, hm]
    rfl
  have hfixed {read : Except Error (List Extracted)} {m : Engine σ}
      (hm : extractAll b items e = some (read, m)) :
      m.StoreCanonical ∧ m.store = e.store ∧ m.listeners = e.listeners ∧ m.hooks = e.hooks := by
    have hview := preserves_extractAll _ _ _ _ _ hm
    exact ⟨(storeCanonical_of_fixed hview he).1, congrArg (fun x => x.2.1) hview,
      congrArg (fun x => x.2.2) hview, preserves_hooks _ _ _ _ hm⟩
  rcases useStyles_eq_some.1 h with ⟨err, hm, rfl⟩ | ⟨parts, m, hm, rfl, rfl⟩
  · obtain ⟨-, hstore, hobservers⟩ := hfixed hm
    refine ⟨[], by simp [hstore], hobservers, fun log => ?_⟩
    simpa using useStyles_eq_some.2 (.inl ⟨err, hread log hm, rfl⟩)
  · obtain ⟨hcanonical, hstore, hlisteners, hhooks⟩ := hfixed hm
    obtain ⟨added, hrules, hlog⟩ := addSlots_logged (merge parts) (o := {}) hcanonical (w := w)
    obtain ⟨hlisteners', hhooks'⟩ := addSlots_observers (merge parts) m {}
    refine ⟨added, by rw [hrules, hstore],
      ⟨hlisteners'.trans hlisteners, hhooks'.trans hhooks⟩, fun log => ?_⟩
    refine useStyles_eq_some.2 (.inr ⟨parts, _, hread log hm, ?_, ?_⟩)
    · rw [hlog]
    · rw [hlog, entries_congr hlisteners hhooks]

end Engine

end AtomicCss
