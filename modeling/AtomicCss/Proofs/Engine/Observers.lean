import AtomicCss.Proofs.Engine.Logging

/-!
# What observers are told over a run

Over a run of an engine every listener is told of the rules that are created after it was
added, once each and in order, and every plugin of one's own once for each rule. This is
read off the logs of a run beside the run, whose engine differs from the first one only in
that listeners and plugins write down when they are called.

- `Sighting`, `Engine.sighted`: a log in which every observer has its place.
- `told`: what one listener is told, out of a log.
- `Alongside`: the events of the logged engine, next to those of the engine.
- `Engine.perform_logged`: one call.
- `Engine.Observed`: what a run does to the observers. Built up call by call.
- `Engine.Run.observed`: what they are told over the life of an engine.
-/

namespace AtomicCss

variable {σ N : Type}

/-! ## Calls of a logged engine -/

/-- The listener that a call adds. -/
def Call.listener? : Call σ → Option (AtomicRule → σ → σ)
  | .listen listener => some listener
  | _ => none

/-- A call to a logged engine. A listener that it adds writes down what it is told, in its
place. -/
def Call.logged (w : Scribe σ N) (place : Nat) : Call σ → Call (σ × List N)
  | .use items => .use items
  | .preview items => .preview items
  | .render => .render
  | .listen listener => .listen (w.tapped place listener)

/-- The listeners that are added in the course of events. -/
def registered (events : List (Event σ)) : List (AtomicRule → σ → σ) :=
  events.filterMap fun event => event.call.listener?

theorem registered_cons (event : Event σ) (events : List (Event σ)) :
    registered (event :: events) = event.call.listener?.toList ++ registered events := by
  unfold registered
  rw [List.filterMap_cons]
  cases event.call.listener? <;> rfl

/-- Events of a logged engine next to those of the engine: the same calls with the same
answers, stores and shared states. `place` is the number of listeners so far. -/
inductive Alongside (w : Scribe σ N) : Nat → List (Event σ) → List (Event (σ × List N)) → Prop
  | nil (place : Nat) : Alongside w place [] []
  | cons {place : Nat} {event : Event σ} {events : List (Event σ)}
      {logged : List (Event (σ × List N))} (log : List N) :
      Alongside w (place + event.call.listener?.toList.length) events logged →
      Alongside w place (event :: events)
        (⟨event.call.logged w place, event.answer, event.store, (event.shared, log)⟩ :: logged)

namespace Engine

variable {w : Scribe σ N} {b : Nat}

/-- A call appends rules and writes their entries down. Only listeners are added. -/
theorem perform_logged {c : Call σ} {e e' : Engine σ} {answer : Except Error Answer}
    (he : e.StoreCanonical) (h : c.perform b e = some (answer, e')) :
    ∃ added, e'.store.rules = e.store.rules ++ added ∧
      (e'.listeners = e.listeners ++ c.listener?.toList ∧ e'.hooks = e.hooks) ∧
      ∀ log, (c.logged w e.listeners.length).perform b (e.logged w log) =
        some (answer, e'.logged w (log ++ added.flatMap (e.entries w))) := by
  have hcall := perform_eq_some.1 h
  cases c with
  | use items =>
    obtain ⟨r, huse, rfl⟩ := hcall
    obtain ⟨added, hrules, ⟨hlisteners, hhooks⟩, hlog⟩ := useStyles_logged he huse (w := w)
    exact ⟨added, hrules, ⟨by simp [hlisteners, Call.listener?], hhooks⟩,
      fun log => perform_eq_some.2 ⟨r, hlog log, rfl⟩⟩
  | preview items =>
    obtain ⟨r, hpreview, rfl⟩ := hcall
    obtain ⟨read, hread, -⟩ := previewStyles_eq_some.1 hpreview
    have hview := preserves_extractAll _ _ _ _ _ hread
    have hstore : e'.store = e.store := congrArg (fun x => x.2.1) hview
    have hlisteners : e'.listeners = e.listeners := congrArg (fun x => x.2.2) hview
    refine ⟨[], by simp [hstore], ⟨by simp [hlisteners, Call.listener?],
      preserves_hooks _ _ _ _ hread⟩, fun log => perform_eq_some.2 ⟨r, ?_, rfl⟩⟩
    rw [mirrors_previewStyles_logged items e, hpreview]
    simp
  | render =>
    obtain ⟨rfl, rfl⟩ := hcall
    exact ⟨[], by simp, ⟨by simp [Call.listener?], rfl⟩,
      fun log => perform_eq_some.2 ⟨rfl, by simp⟩⟩
  | listen listener =>
    obtain ⟨rfl, rfl⟩ := hcall
    refine ⟨[], by simp [listen], ⟨rfl, rfl⟩, fun log => perform_eq_some.2 ⟨rfl, ?_⟩⟩
    simp [logged, listen, List.mapIdx_concat]

end Engine

/-! ## Sightings -/

/-- The listener in a place was told of a rule, or the plugin in a place was told that there
is one. -/
inductive Sighting where
  | listener (place : Nat) (r : AtomicRule)
  | plugin (place : Nat)
  deriving DecidableEq, Repr

/-- Every observer is written down by its place. -/
def sightings : Scribe σ Sighting := ⟨.listener, fun place _ => .plugin place⟩

/-- What the listener in a place is told, in order. -/
def told (place : Nat) (log : List Sighting) : List AtomicRule :=
  log.filterMap fun
    | .listener p r => if p = place then some r else none
    | .plugin _ => none

theorem told_append (place : Nat) (log log' : List Sighting) :
    told place (log ++ log') = told place log ++ told place log' :=
  List.filterMap_append

namespace Engine

/-- An engine with a log of who is told of a rule. -/
def sighted (log : List Sighting) (e : Engine σ) : Engine (σ × List Sighting) :=
  e.logged sightings log

theorem told_listeners (place : Nat) (r : AtomicRule) (ls : List (AtomicRule → σ → σ)) :
    told place (ls.mapIdx fun p _ => (sightings (σ := σ)).listener p r) =
      if place < ls.length then [r] else [] := by
  induction ls using List.reverseRecOn with
  | nil => rfl
  | append_singleton ls l ih =>
    have hlast : told place [sightings (σ := σ) |>.listener ls.length r] =
        if ls.length = place then [r] else [] := by
      by_cases hplace : ls.length = place <;> simp [told, sightings, hplace]
    rw [List.mapIdx_concat, told_append, ih, hlast, List.length_append]
    rcases Nat.lt_trichotomy place ls.length with hlt | heq | hgt
    · rw [if_pos hlt, if_neg (by omega), if_pos (by simp; omega), List.append_nil]
    · rw [if_neg (by omega), if_pos heq.symm, if_pos (by simp; omega), List.nil_append]
    · rw [if_neg (by omega), if_neg (by omega), if_neg (by simp; omega), List.nil_append]

theorem told_plugins (place : Nat) (hooks : List (Option (Hooks σ))) :
    told place (hooks.mapIdx fun p h => (h.map (sightings.plugin p)).toList).flatten = [] := by
  induction hooks using List.reverseRecOn with
  | nil => rfl
  | append_singleton hooks h ih =>
    rw [List.mapIdx_concat, List.flatten_append, told_append, ih]
    cases h <;> rfl

theorem count_listeners (place : Nat) (r : AtomicRule) (ls : List (AtomicRule → σ → σ)) :
    (ls.mapIdx fun p _ => (sightings (σ := σ)).listener p r).count (.plugin place) = 0 := by
  refine List.count_eq_zero.2 fun hmem => ?_
  obtain ⟨p, _, heq⟩ := List.mem_mapIdx.1 hmem
  cases heq

theorem count_plugins (place : Nat) (hooks : List (Option (Hooks σ))) :
    (hooks.mapIdx fun p h => (h.map (sightings.plugin p)).toList).flatten.count
      (.plugin place) = hooks[place]?.join.toList.length := by
  induction hooks using List.reverseRecOn with
  | nil => rfl
  | append_singleton hooks h ih =>
    rw [List.mapIdx_concat, List.flatten_append, List.count_append, ih]
    rcases Nat.lt_trichotomy place hooks.length with hlt | rfl | hgt
    · rw [List.getElem?_append_left hlt]
      cases h <;> simp [sightings, Nat.ne_of_gt hlt]
    · cases h <;> simp [sightings]
    · have hlength : (hooks ++ [h]).length ≤ place := by
        rw [List.length_append, List.length_singleton]
        omega
      rw [List.getElem?_eq_none hlength, List.getElem?_eq_none (by omega)]
      cases h <;> simp [sightings, Nat.ne_of_lt hgt]

/-- Of a new rule every listener is told once. -/
theorem told_entries (place : Nat) (e : Engine σ) (r : AtomicRule) :
    told place (e.entries sightings r) = if place < e.listeners.length then [r] else [] := by
  rw [entries, told_append, told_listeners, told_plugins, List.append_nil]

/-- Of a new rule every plugin of one's own is told once. -/
theorem count_entries {place : Nat} {e : Engine σ} {hooks : Hooks σ}
    (hplugin : e.hooks[place]? = some (some hooks)) (r : AtomicRule) :
    (e.entries sightings r).count (.plugin place) = 1 := by
  rw [entries, List.count_append, count_listeners, count_plugins,
    show e.pipeline.hooks[place]? = some (some hooks) from hplugin]
  rfl

theorem told_flatMap_entries (place : Nat) (e : Engine σ) (rules : List AtomicRule) :
    told place (rules.flatMap (e.entries sightings)) =
      if place < e.listeners.length then rules else [] := by
  induction rules with
  | nil => simp [told]
  | cons r rules ih =>
    rw [List.flatMap_cons, told_append, told_entries, ih]
    split <;> rfl

theorem count_flatMap_entries {place : Nat} {e : Engine σ} {hooks : Hooks σ}
    (hplugin : e.hooks[place]? = some (some hooks)) (rules : List AtomicRule) :
    (rules.flatMap (e.entries sightings)).count (.plugin place) = rules.length := by
  induction rules with
  | nil => rfl
  | cons r rules ih =>
    rw [List.flatMap_cons, List.count_append, count_entries hplugin, ih, List.length_cons,
      Nat.add_comm]

/-! ## Runs -/

/-- What a run does to the observers: `new` are the entries that it writes down. A listener
that was there before is told of all rules that are appended, one that is added on the way of
those that are appended afterwards, and a plugin once of each. -/
structure Observed (e : Engine σ) (events : List (Event σ)) (e' : Engine σ)
    (new : List Sighting) : Prop where
  run : ∀ log, ∃ logged, Run (e.sighted log) logged (e'.sighted (log ++ new)) ∧
    Alongside sightings e.listeners.length events logged
  listeners : e'.listeners = e.listeners ++ registered events
  hooks : e'.hooks = e.hooks
  early : ∀ place < e.listeners.length, e'.store.rules = e.store.rules ++ told place new
  late : ∀ before event after, events = before ++ event :: after →
    event.call.listener?.isSome → e'.store.rules = event.store.rules ++
      told (e.listeners.length + (registered before).length) new
  plugins : ∀ place hooks, e.hooks[place]? = some (some hooks) →
    e'.store.rules.length = e.store.rules.length + new.count (.plugin place)

theorem Observed.nil (e : Engine σ) : Observed e [] e [] where
  run := fun log => ⟨[], by rw [List.append_nil]; exact .nil _, .nil _⟩
  listeners := (List.append_nil _).symm
  hooks := rfl
  early := fun _ _ => (List.append_nil _).symm
  late := fun before event after h => by simp at h
  plugins := fun _ _ _ => rfl

/-- One more call in front. -/
theorem Observed.cons {c : Call σ} {e e₁ e' : Engine σ} {answer : Except Error Answer}
    {events : List (Event σ)} {new : List Sighting} (he : e.StoreCanonical)
    (hcall : c.perform b e = some (answer, e₁)) (h : Observed e₁ events e' new) :
    ∃ first, Observed e (e₁.event c answer :: events) e' (first ++ new) := by
  obtain ⟨added, hrules, ⟨hlisteners, hhooks⟩, hlog⟩ := perform_logged he hcall (w := sightings)
  have hlength : e₁.listeners.length = e.listeners.length + c.listener?.toList.length := by
    rw [hlisteners, List.length_append]
  refine ⟨added.flatMap (e.entries sightings), ?_, ?_, h.hooks.trans hhooks, ?_, ?_, ?_⟩
  · intro log
    obtain ⟨logged, hrun, halong⟩ := h.run (log ++ added.flatMap (e.entries sightings))
    rw [hlength] at halong
    refine ⟨_, ?_, .cons (log ++ added.flatMap (e.entries sightings)) halong⟩
    rw [← List.append_assoc]
    exact .cons (hlog log) hrun
  · rw [h.listeners, hlisteners, registered_cons, List.append_assoc]
    rfl
  · intro place hplace
    rw [h.early place (by omega), hrules, told_append, told_flatMap_entries, if_pos hplace,
      List.append_assoc]
  · rintro (_ | ⟨_, before⟩) event after heq hlistener
    · -- the first call adds the listener, which is there for all others
      obtain ⟨rfl, rfl⟩ := List.cons.inj heq
      have hone : c.listener?.toList.length = 1 := by
        obtain ⟨listener, hc⟩ := Option.isSome_iff_exists.1 hlistener
        rw [show c.listener? = some listener from hc]
        rfl
      show e'.store.rules = e₁.store.rules ++ told e.listeners.length _
      rw [told_append, told_flatMap_entries, if_neg (Nat.lt_irrefl _), List.nil_append]
      exact h.early _ (by rw [hlength, hone]; exact Nat.lt_succ_self _)
    · obtain ⟨rfl, rfl⟩ := List.cons.inj heq
      rw [h.late before event after rfl hlistener, registered_cons, List.length_append,
        ← Nat.add_assoc, told_append, told_flatMap_entries, if_neg (by omega), List.nil_append]
      rw [hlength]
      rfl
  · intro place hooks hplugin
    rw [h.plugins place hooks (hhooks ▸ hplugin), hrules, List.length_append,
      List.count_append, count_flatMap_entries hplugin, Nat.add_assoc]

theorem Run.exists_observed {e e' : Engine σ} {events : List (Event σ)} (h : Run e events e')
    (he : e.StoreCanonical) : ∃ new, Observed e events e' new := by
  induction h with
  | nil e => exact ⟨[], .nil e⟩
  | cons hcall _ ih =>
    obtain ⟨new, hnew⟩ := ih (perform_canonical he hcall).1
    obtain ⟨first, hfirst⟩ := Observed.cons he hcall hnew
    exact ⟨_, hfirst⟩

/-! ## The life of an engine -/

/-- A declaration that is in the store changes nothing when it is entered again. -/
theorem addDeclaration_of_nameOf? {e : Engine σ} {d : Declaration} {name : String}
    (h : e.store.nameOf? d = some name) : e.addDeclaration d = (name, e) := by
  have hintern : e.store.intern d e.config.namePrefix = (⟨name, false⟩, e.store) := by
    rw [Store.intern, show Table.get? e.store.names d.key = some name from h]
  rw [addDeclaration_eq, hintern]
  rfl

/-- Over the life of an engine nobody is told of anything while it is created; a listener is
told of the rules that are created after it was added, each once and in order, as they stand
in the store; a plugin of one's own is told once of every rule; and entering a declaration
that is in the store tells nobody. -/
theorem Run.observed {config : EngineConfig σ} {shared : σ} {e₀ e : Engine σ}
    {warnings : List Warning} {events : List (Event σ)}
    (hcreate : create config shared = some (.ok (e₀, warnings))) (hrun : Run e₀ events e) :
    settle config.draft
        ((⟨Pipeline.arrange config.plugins, shared⟩ : Pipeline σ).logged sightings []) =
      some (.ok (e₀.config, warnings), e₀.pipeline.logged sightings []) ∧
    (∃ log logged, Run (e₀.sighted []) logged (e.sighted log) ∧
      Alongside sightings 0 events logged ∧
      (∀ before event after listener, events = before ++ event :: after →
        event.call = .listen listener →
        e.listeners[(registered before).length]? = some listener ∧
          e.store.rules = event.store.rules ++ told (registered before).length log) ∧
      (∀ place hooks, e.pipeline.plugins[place]? = some (.custom hooks) →
        log.count (.plugin place) = e.store.size)) ∧
    ∀ (m : Engine σ) (log : List Sighting) (d : Declaration) (name : String),
      m.store.nameOf? d = some name →
        (m.sighted log).addDeclaration d = (name, m.sighted log) := by
  obtain ⟨new, hnew⟩ := hrun.exists_observed (storeCanonical_of_create hcreate)
  obtain ⟨settled, pipeline, hsettle, he₀⟩ := create_eq_some hcreate
  have hnone : e₀.listeners = [] := by rw [he₀]
  obtain ⟨logged, hlogged, halong⟩ := hnew.run []
  have hlength : e₀.listeners.length = 0 := by rw [hnone, List.length_nil]
  refine ⟨?_, ⟨new, logged, hlogged, hlength ▸ halong, ?_, ?_⟩,
    fun m log d name hname => addDeclaration_of_nameOf? hname⟩
  · rw [mirrors_settle config.draft, hsettle, he₀]
    rfl
  · intro before event after listener heq hcall
    have hlate := hnew.late before event after heq (by rw [hcall]; rfl)
    rw [hlength, Nat.zero_add] at hlate
    refine ⟨?_, hlate⟩
    have hregistered : registered events =
        registered before ++ listener :: registered after := by
      rw [heq, registered, List.filterMap_append, ← registered, ← registered, registered_cons,
        hcall]
      rfl
    rw [hnew.listeners, hnone, List.nil_append, hregistered]
    simp
  · intro place hooks hplugin
    have hhooks : e₀.hooks[place]? = some (some hooks) := by
      rw [← hnew.hooks, Engine.hooks, Pipeline.hooks, List.getElem?_map, hplugin]
      rfl
    have hcount := hnew.plugins place hooks hhooks
    rw [create_store hcreate] at hcount
    have hsize : e.store.size = e.store.rules.length := (List.length_map _).symm
    rw [hsize, hcount]
    exact (Nat.zero_add _).symm

/-- A plugin that counts rules. -/
def counter : Plugin Nat := .custom { name := "counter", ruleAdded := (· + 1) }

/-- A listener that counts rules by tens. -/
def byTens (_ : AtomicRule) (n : Nat) : Nat := n + 10

/-- An engine with this plugin, which has seen some declarations. -/
def counting (ds : List Declaration) (listeners : List (AtomicRule → Nat → Nat)) (n : Nat) :
    Engine Nat where
  config := {}
  pipeline := ⟨[counter], n⟩
  store := Store.ofDeclarations "" ds
  listeners := listeners

/-- A listener is added and red text is used: the listener and the plugin are told of it,
once each. -/
theorem Run.observed_counting :
    let red : Declaration := ⟨[".$$"], "color", ["red"]⟩
    let call : Call Nat := .use [.definition [("color", .property (.scalar (.text "red")))]]
    create { plugins := [.plugin counter] } 0 = some (.ok (counting [] [] 0, [])) ∧
      Run (counting [] [] 0) [(counting [] [byTens] 0).event (.listen byTens) (.ok .done),
        (counting [red] [byTens] 11).event call (.ok (.outcome ⟨["a"], []⟩))]
        (counting [red] [byTens] 11) ∧
      ∃ log logged, Run ((counting [] [] 0).sighted []) logged
          ((counting [red] [byTens] 11).sighted log) ∧
        told 0 log = [⟨"a", red⟩] ∧ log.count (.plugin 0) = 1 := by
  intro red call
  have hcreate : create { plugins := [.plugin counter] } 0 =
      some (.ok (counting [] [] 0, [])) := by rfl
  have hlisten : (Call.listen byTens).perform 1 (counting [] [] 0) =
      some (.ok .done, counting [] [byTens] 0) := by rfl
  have hcall : call.perform 1 (counting [] [byTens] 0) =
      some (.ok (.outcome ⟨["a"], []⟩), counting [red] [byTens] 11) := by rfl
  have hrun := Run.cons hlisten (.cons hcall (.nil _))
  have hrules : (counting [red] [byTens] 11).store.rules = [⟨"a", red⟩] := by rfl
  have hsize : (counting [red] [byTens] 11).store.size = 1 := by rfl
  obtain ⟨-, ⟨log, logged, hlogged, -, htold, hcount⟩, -⟩ := Run.observed hcreate hrun
  obtain ⟨-, hlate⟩ := htold [] _ [_] byTens rfl rfl
  exact ⟨hcreate, hrun, log, logged, hlogged, hlate.symm.trans hrules,
    (hcount 0 _ rfl).trans hsize⟩

end Engine

end AtomicCss
