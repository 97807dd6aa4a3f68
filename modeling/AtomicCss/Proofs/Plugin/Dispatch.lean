import AtomicCss.Plugin.Pipeline
import Mathlib.Data.List.Basic

/-!
# The order in which plugins are called

Plugins are arranged by their stage, and within a stage by the place of their registration,
however they are grouped. A hook hands what passes through it from plugin to plugin in this
order; the plugin that fails is the last one that is called.

- `PluginOption.At`: a plugin is registered at a place.
- `PluginOption.leaves`: the plugins of an option with their places.
- `Pipeline.leavesByStage`: the same, stage by stage, which is the order of calls.
- `Pipeline.Turn`: one call of a hook of one plugin.
- `Pipeline.TakesTurns`, `Pipeline.run_eq_some`: the turns that a hook consists of.
- `Pipeline.map_plugins_run`: what a hook keeps of each plugin, it keeps of all of them.
- `Pipeline.run_eq_foldlM`: a hook as a fold.
- `Pipeline.dispatches_in_order`: which plugins there are, when they are called, and with what.
-/

namespace AtomicCss

variable {σ α : Type}

/-! ## Places of registration -/

/-- The plugin is registered at the place that the indices lead to, group by group. -/
inductive PluginOption.At : PluginOption σ → List Nat → Plugin σ → Prop
  | plugin (p : Plugin σ) : At (.plugin p) [] p
  | inside {options : List (PluginOption σ)} {i : Nat} {o : PluginOption σ} {path : List Nat}
      {p : Plugin σ} : options[i]? = some o → At o path p → At (.group options) (i :: path) p

namespace PluginOption

mutual

/-- The plugins of an option with their places in it, depth first. -/
def leaves : PluginOption σ → List (List Nat × Plugin σ)
  | .plugin p => [([], p)]
  | .group options => leavesOf 0 options
termination_by structural o => o

/-- The plugins of options that are counted from an index on, with their places. -/
def leavesOf (i : Nat) : List (PluginOption σ) → List (List Nat × Plugin σ)
  | [] => []
  | o :: options => o.leaves.map (fun leaf => (i :: leaf.1, leaf.2)) ++ leavesOf (i + 1) options
termination_by structural os => os

end

mutual

theorem map_snd_leaves : ∀ o : PluginOption σ, o.leaves.map Prod.snd = o.plugins
  | .plugin p => by rw [leaves, plugins]; rfl
  | .group options => by rw [leaves, plugins, map_snd_leavesOf]

theorem map_snd_leavesOf :
    ∀ (i : Nat) (options : List (PluginOption σ)),
      (leavesOf i options).map Prod.snd = pluginsOf options
  | i, [] => by rw [leavesOf, pluginsOf]; rfl
  | i, o :: options => by
    rw [leavesOf, pluginsOf, List.map_append, List.map_map, map_snd_leavesOf, ← map_snd_leaves o]
    rfl

end

mutual

theorem mem_leaves {path : List Nat} {p : Plugin σ} :
    ∀ {o : PluginOption σ}, (path, p) ∈ o.leaves ↔ o.At path p
  | .plugin q => by
    rw [leaves, List.mem_singleton]
    constructor
    · rintro ⟨rfl, rfl⟩
      exact .plugin p
    · rintro ⟨⟩
      rfl
  | .group options => by
    rw [leaves, mem_leavesOf]
    constructor
    · rintro ⟨i, o, rest, hi, rfl, ho⟩
      exact .inside (by simpa using hi) ho
    · rintro ⟨⟩
      next i o rest hi ho => exact ⟨i, o, rest, hi, by simp, ho⟩

theorem mem_leavesOf {path : List Nat} {p : Plugin σ} :
    ∀ {i : Nat} {options : List (PluginOption σ)}, (path, p) ∈ leavesOf i options ↔
      ∃ j o rest, options[j]? = some o ∧ path = (i + j) :: rest ∧ o.At rest p
  | i, [] => by simp [leavesOf]
  | i, o :: options => by
    rw [leavesOf, List.mem_append, mem_leavesOf (i := i + 1)]
    constructor
    · rintro (h | ⟨j, o', rest, hj, rfl, ho'⟩)
      · obtain ⟨⟨rest, q⟩, hleaf, heq⟩ := List.mem_map.1 h
        obtain ⟨rfl, rfl⟩ := Prod.mk.inj heq
        exact ⟨0, o, rest, rfl, rfl, mem_leaves.1 hleaf⟩
      · exact ⟨j + 1, o', rest, hj, by rw [Nat.add_assoc, Nat.add_comm 1], ho'⟩
    · rintro ⟨j, o', rest, hj, rfl, ho'⟩
      cases j with
      | zero =>
        obtain rfl := Option.some.inj hj
        exact .inl (List.mem_map.2 ⟨(rest, p), mem_leaves.2 ho', rfl⟩)
      | succ j => exact .inr ⟨j, o', rest, hj, by rw [Nat.add_assoc, Nat.add_comm 1], ho'⟩

end

mutual

/-- Depth first is the order of the places. -/
theorem pairwise_leaves : ∀ o : PluginOption σ, o.leaves.Pairwise fun x y => x.1 < y.1
  | .plugin p => by rw [leaves]; exact List.pairwise_singleton _ _
  | .group options => by rw [leaves]; exact pairwise_leavesOf 0 options

theorem pairwise_leavesOf :
    ∀ (i : Nat) (options : List (PluginOption σ)),
      (leavesOf i options).Pairwise fun x y => x.1 < y.1
  | i, [] => by rw [leavesOf]; exact List.Pairwise.nil
  | i, o :: options => by
    rw [leavesOf, List.pairwise_append, List.pairwise_map]
    refine ⟨(pairwise_leaves o).imp fun h => List.cons_lt_cons_iff.2 (.inr ⟨rfl, h⟩),
      pairwise_leavesOf (i + 1) options, ?_⟩
    rintro x hx ⟨path, p⟩ hy
    obtain ⟨leaf, -, rfl⟩ := List.mem_map.1 hx
    obtain ⟨j, o', rest, -, rfl, -⟩ := mem_leavesOf.1 hy
    exact List.cons_lt_cons_iff.2 (.inl (by omega))

end

theorem pluginsOf_append (before after : List (PluginOption σ)) :
    pluginsOf (before ++ after) = pluginsOf before ++ pluginsOf after := by
  induction before with
  | nil => rw [pluginsOf]; rfl
  | cons o before ih => rw [List.cons_append, pluginsOf, pluginsOf, ih, List.append_assoc]

end PluginOption

/-! ## Stages -/

/-- The stages are numbered in the order of their calls. -/
def Stage.rank : Stage → Nat
  | .pre => 0
  | .normal => 1
  | .post => 2

namespace Pipeline

/-- The plugins of options with their places, in the order of calls. -/
def leavesByStage (options : List (PluginOption σ)) : List (List Nat × Plugin σ) :=
  [.pre, .normal, .post].flatMap fun stage : Stage =>
    (PluginOption.group options).leaves.filter fun leaf => leaf.2.stage = stage

theorem map_snd_leavesByStage (options : List (PluginOption σ)) :
    (leavesByStage options).map Prod.snd = arrange options := by
  have hstage (stage : Stage) :
      ((PluginOption.group options).leaves.filter fun leaf => leaf.2.stage = stage).map Prod.snd =
        ofStage stage (PluginOption.pluginsOf options) := by
    rw [ofStage, show PluginOption.pluginsOf options = (PluginOption.group options).plugins by
      rw [PluginOption.plugins], ← PluginOption.map_snd_leaves, List.filter_map]
    rfl
  simp [leavesByStage, arrange, hstage]

theorem mem_leavesByStage {options : List (PluginOption σ)} {path : List Nat} {p : Plugin σ} :
    (path, p) ∈ leavesByStage options ↔ (PluginOption.group options).At path p := by
  rw [leavesByStage, List.mem_flatMap, ← PluginOption.mem_leaves]
  constructor
  · rintro ⟨stage, -, hleaf⟩
    exact (List.mem_filter.1 hleaf).1
  · intro hleaf
    exact ⟨p.stage, by cases p.stage <;> simp, List.mem_filter.2 ⟨hleaf, by simp⟩⟩

theorem pairwise_leavesByStage (options : List (PluginOption σ)) :
    (leavesByStage options).Pairwise fun x y =>
      x.2.stage.rank < y.2.stage.rank ∨ x.2.stage = y.2.stage ∧ x.1 < y.1 := by
  have hstage {stage : Stage} {x : List Nat × Plugin σ}
      (hx : x ∈ (PluginOption.group options).leaves.filter fun leaf => leaf.2.stage = stage) :
      x.2.stage = stage := by
    simpa using (List.mem_filter.1 hx).2
  rw [leavesByStage, List.pairwise_flatMap]
  constructor
  · intro stage _
    refine List.Pairwise.imp_of_mem ?_ ((PluginOption.pairwise_leaves _).filter _)
    intro x y hx hy hlt
    exact .inr ⟨(hstage hx).trans (hstage hy).symm, hlt⟩
  · have hranks : [Stage.pre, .normal, .post].Pairwise fun a b => a.rank < b.rank := by decide
    refine hranks.imp fun hlt x hx y hy => .inl ?_
    rwa [hstage hx, hstage hy]

/-- A group stands for its parts. -/
theorem arrange_group (before inner after : List (PluginOption σ)) :
    arrange (before ++ .group inner :: after) = arrange (before ++ inner ++ after) := by
  have h : PluginOption.pluginsOf (before ++ .group inner :: after) =
      PluginOption.pluginsOf (before ++ inner ++ after) := by
    rw [PluginOption.pluginsOf_append, PluginOption.pluginsOf, PluginOption.plugins,
      PluginOption.pluginsOf_append, PluginOption.pluginsOf_append, List.append_assoc]
  rw [arrange, arrange, h]

/-! ## Turns -/

/-- The turn of a plugin in a hook: what it is given, and what it leaves behind. -/
structure Turn (σ α : Type) where
  plugin : Plugin σ
  given : α
  shared : σ
  answer : Except Error (Option α)
  pluginAfter : Plugin σ
  sharedAfter : σ

namespace Turn

/-- The plugin takes its turn in the hook. -/
def Taken (hook : Plugin σ → α → σ → HookResult σ α) (t : Turn σ α) : Prop :=
  hook t.plugin t.given t.shared = some (t.answer, t.pluginAfter, t.sharedAfter)

/-- What reaches a plugin: no error does. -/
def before (t : Turn σ α) : Except Error α × σ := (.ok t.given, t.shared)

/-- What goes on from a plugin: its error, its answer, or what it was given. -/
def after (t : Turn σ α) : Except Error α × σ :=
  (t.answer.map fun answer => answer.getD t.given, t.sharedAfter)

/-- Each of the turns gets what goes on from the one before it, from the start to the stop. -/
def Linked (start : Except Error α × σ) (turns : List (Turn σ α))
    (stop : Except Error α × σ) : Prop :=
  start :: turns.map after = turns.map before ++ [stop]

end Turn

variable {hook : Plugin σ → α → σ → HookResult σ α} {a : α} {s s' : σ} {r : Except Error α}

/-- The two ways in which a hook comes to a result: its first plugin fails, or the others are
handed what that one has left. -/
theorem through_cons_eq_some {p : Plugin σ} {ps ps' : List (Plugin σ)} :
    through hook (p :: ps) a s = some (r, ps', s') ↔
      (∃ err p', hook p a s = some (.error err, p', s') ∧ r = .error err ∧ ps' = p' :: ps) ∨
      (∃ answer p' s₁ ps₁, hook p a s = some (.ok answer, p', s₁) ∧
        through hook ps (answer.getD a) s₁ = some (r, ps₁, s') ∧ ps' = p' :: ps₁) := by
  constructor
  · intro h
    rw [through] at h
    rcases hp : hook p a s with _ | ⟨err | answer, p', s₁⟩ <;> rw [hp] at h
    · cases h
    · obtain ⟨rfl, rfl, rfl⟩ : .error err = r ∧ p' :: ps = ps' ∧ s₁ = s' := by simpa using h
      exact .inl ⟨err, p', rfl, rfl, rfl⟩
    · dsimp only at h
      rcases hps : through hook ps (answer.getD a) s₁ with _ | ⟨r₁, ps₁, s₂⟩ <;> rw [hps] at h
      · cases h
      · obtain ⟨rfl, rfl, rfl⟩ : r₁ = r ∧ p' :: ps₁ = ps' ∧ s₂ = s' := by simpa using h
        exact .inr ⟨answer, p', s₁, ps₁, rfl, hps, rfl⟩
  · rintro (⟨err, p', hp, rfl, rfl⟩ | ⟨answer, p', s₁, ps₁, hp, hps, rfl⟩)
    · rw [through, hp]
    · rw [through, hp]
      simp only [hps]

/-- A hook of several plugins succeeds if that of each of them does. -/
theorem through_cons_ok {p : Plugin σ} {ps ps' : List (Plugin σ)} {a' : α}
    (h : through hook (p :: ps) a s = some (.ok a', ps', s')) :
    ∃ answer p' s₁ ps₁, hook p a s = some (.ok answer, p', s₁) ∧
      through hook ps (answer.getD a) s₁ = some (.ok a', ps₁, s') ∧ ps' = p' :: ps₁ := by
  rcases through_cons_eq_some.1 h with ⟨_, _, -, herr, -⟩ | h
  · cases herr
  · exact h

/-- A pipeline comes to a result through turns of its plugins, one after the other from the first
one on. Each is given what goes on from the one before it, and all have had their turn unless
an error goes on from the last one. -/
def TakesTurns (hook : Plugin σ → α → σ → HookResult σ α) (a : α) (p : Pipeline σ)
    (r : Except Error α) (p' : Pipeline σ) : Prop :=
  ∃ (turns : List (Turn σ α)) (unasked : List (Plugin σ)),
    p.plugins = turns.map Turn.plugin ++ unasked ∧
    p'.plugins = turns.map Turn.pluginAfter ++ unasked ∧
    (∀ t ∈ turns, t.Taken hook) ∧
    Turn.Linked (.ok a, p.shared) turns (r, p'.shared) ∧
    ((∃ a', r = .ok a') → unasked = [])

theorem through_eq_some {ps ps' : List (Plugin σ)} :
    through hook ps a s = some (r, ps', s') ↔ TakesTurns hook a ⟨ps, s⟩ r ⟨ps', s'⟩ := by
  induction ps generalizing a s r ps' with
  | nil =>
    constructor
    · intro h
      obtain ⟨rfl, rfl, rfl⟩ : .ok a = r ∧ [] = ps' ∧ s = s' := by simpa [through] using h
      exact ⟨[], [], rfl, rfl, by simp, rfl, fun _ => rfl⟩
    · rintro ⟨turns, unasked, hps, rfl, -, hlinked, -⟩
      obtain ⟨hturns, rfl⟩ := List.append_eq_nil_iff.1 hps.symm
      obtain rfl := List.map_eq_nil_iff.1 hturns
      obtain ⟨rfl, rfl⟩ : .ok a = r ∧ s = s' := by simpa [Turn.Linked] using hlinked
      rfl
  | cons p ps ih =>
    rw [through_cons_eq_some]
    constructor
    · rintro (⟨err, p', hp, rfl, rfl⟩ | ⟨answer, p', s₁, ps₁, hp, hps, rfl⟩)
      · refine ⟨[⟨p, a, s, .error err, p', s'⟩], ps, rfl, rfl, ?_, rfl, ?_⟩
        · simpa [Turn.Taken] using hp
        · rintro ⟨a', ha'⟩
          cases ha'
      · obtain ⟨turns, unasked, rfl, rfl, htaken, hlinked, hall⟩ := ih.1 hps
        refine ⟨⟨p, a, s, .ok answer, p', s₁⟩ :: turns, unasked, rfl, rfl, ?_, ?_, hall⟩
        · exact List.forall_mem_cons.2 ⟨hp, htaken⟩
        · exact congrArg ((.ok a, s) :: ·) hlinked
    · rintro ⟨turns, unasked, hps, rfl, htaken, hlinked, hall⟩
      cases turns with
      | nil =>
        -- nobody was asked, so there is no error, and somebody is left to be asked
        obtain ⟨rfl, rfl⟩ : .ok a = r ∧ s = s' := by simpa [Turn.Linked] using hlinked
        cases hps.trans (hall ⟨a, rfl⟩)
      | cons t turns =>
        obtain ⟨hp, hrest⟩ := List.forall_mem_cons.1 htaken
        obtain ⟨rfl, rfl⟩ := List.cons.inj hps
        obtain ⟨hfirst, hlinked⟩ := List.cons.inj hlinked
        obtain ⟨q, given, shared, answer, q', shared'⟩ := t
        obtain ⟨rfl, rfl⟩ : a = given ∧ s = shared := by simpa [Turn.before] using hfirst
        cases answer with
        | error err =>
          cases turns with
          | nil =>
            obtain ⟨rfl, rfl⟩ : .error err = r ∧ shared' = s' := by
              simpa [Turn.after, Except.map] using hlinked
            exact .inl ⟨err, q', hp, rfl, rfl⟩
          | cons t turns => cases (List.cons.inj hlinked).1
        | ok answer =>
          exact .inr ⟨answer, q', shared', _, hp,
            ih.2 ⟨turns, unasked, rfl, rfl, hrest, hlinked, hall⟩, rfl⟩

/-- A hook comes to a result exactly through turns of the plugins. -/
theorem run_eq_some {p p' : Pipeline σ} :
    run hook a p = some (r, p') ↔ TakesTurns hook a p r p' := by
  rw [show TakesTurns hook a p r p' ↔ _ from through_eq_some.symm, run]
  rcases through hook p.plugins a p.shared with _ | ⟨r₁, ps, s⟩
  · simp
  · obtain ⟨ps', s'⟩ := p'
    simp

/-- What a hook keeps of each plugin, its run keeps of all plugins. -/
theorem map_plugins_run {β : Type} {view : Plugin σ → β} {p p' : Pipeline σ}
    (h : ∀ p a s x, hook p a s = some x → view x.2.1 = view p)
    (hrun : run hook a p = some (r, p')) : p'.plugins.map view = p.plugins.map view := by
  obtain ⟨turns, unasked, hps, hps', htaken, -⟩ := run_eq_some.1 hrun
  rw [hps, hps', List.map_append, List.map_append, List.map_map, List.map_map]
  congr 1
  exact List.map_congr_left fun t ht => h _ _ _ _ (htaken t ht)

/-! ## A hook as a fold -/

/-- Hand on what has come so far: an error stays, and leaves its plugins alone. -/
def handOn (hook : Plugin σ → α → σ → HookResult σ α) :
    Except Error α × Pipeline σ → Plugin σ → Option (Except Error α × Pipeline σ)
  | (.error err, done), p => some (.error err, ⟨done.plugins ++ [p], done.shared⟩)
  | (.ok a, done), p =>
    (hook p a done.shared).map fun (answer, p', shared) =>
      (answer.map fun answer => answer.getD a, ⟨done.plugins ++ [p'], shared⟩)

theorem foldlM_handOn_error (err : Error) (ps done : List (Plugin σ)) (s : σ) :
    ps.foldlM (handOn hook) (.error err, ⟨done, s⟩) = some (.error err, ⟨done ++ ps, s⟩) := by
  induction ps generalizing done with
  | nil => simp
  | cons p ps ih =>
    rw [List.foldlM_cons, handOn, Option.bind_eq_bind, Option.bind_some, ih, List.append_assoc,
      List.singleton_append]

theorem foldlM_handOn_ok (ps done : List (Plugin σ)) (a : α) (s : σ) :
    ps.foldlM (handOn hook) (.ok a, ⟨done, s⟩) =
      (through hook ps a s).map fun x => (x.1, ⟨done ++ x.2.1, x.2.2⟩) := by
  induction ps generalizing done a s with
  | nil => simp [through]
  | cons p ps ih =>
    rw [List.foldlM_cons, handOn, through]
    rcases hook p a s with _ | ⟨err | answer, p', s₁⟩
    · rfl
    · simp [Except.map, foldlM_handOn_error]
    · simp only [Option.map_some, Option.bind_eq_bind, Option.bind_some, Except.map, ih]
      rcases through hook ps (answer.getD a) s₁ with _ | ⟨r, ps₁, s₂⟩
      · rfl
      · simp

/-- A hook is a fold over the plugins from the left. -/
theorem run_eq_foldlM (p : Pipeline σ) :
    run hook a p = p.plugins.foldlM (handOn hook) (.ok a, ⟨[], p.shared⟩) := by
  rw [foldlM_handOn_ok, run]
  rcases through hook p.plugins a p.shared with _ | ⟨r, ps, s⟩ <;> rfl

/-! ## Hooks that are passed on -/

/-- A walk passes what it is given through a hook of all plugins. -/
structure Relays (walk : α → Walk (Pipeline σ) α)
    (hook : Plugin σ → α → σ → HookResult σ α) : Prop where
  /-- It is a fold over the plugins from the left. -/
  fold : ∀ a p, walk a p = p.plugins.foldlM (handOn hook) (.ok a, ⟨[], p.shared⟩)
  /-- It succeeds if all plugins take one turn each. -/
  succeeds_iff : ∀ a a' p p', walk a p = some (.ok a', p') ↔
    ∃ turns : List (Turn σ α),
      p.plugins = turns.map Turn.plugin ∧ p'.plugins = turns.map Turn.pluginAfter ∧
      (∀ t ∈ turns, t.Taken hook) ∧ Turn.Linked (.ok a, p.shared) turns (.ok a', p'.shared)
  /-- It fails if one plugin does after those before it have taken one turn each. The plugins
  behind it stay as they are. -/
  fails_iff : ∀ a err p p', walk a p = some (.error err, p') ↔
    ∃ (turns : List (Turn σ α)) (last : Turn σ α) (unasked : List (Plugin σ)),
      p.plugins = turns.map Turn.plugin ++ last.plugin :: unasked ∧
      p'.plugins = turns.map Turn.pluginAfter ++ last.pluginAfter :: unasked ∧
      (∀ t ∈ turns, t.Taken hook) ∧ Turn.Linked (.ok a, p.shared) turns last.before ∧
      last.Taken hook ∧ last.answer = .error err ∧ last.sharedAfter = p'.shared
  /-- The plugins keep their names, their stages and their order. -/
  keeps_order : ∀ a r p p', walk a p = some (r, p') →
    p'.plugins.map (fun q => (q.name, q.stage)) = p.plugins.map fun q => (q.name, q.stage)

/-- An error can only go on from the last turn. -/
theorem Turn.linked_error_iff {turns : List (Turn σ α)} {err : Error} :
    Turn.Linked (.ok a, s) turns (.error err, s') ↔
      ∃ front last, turns = front ++ [last] ∧ Turn.Linked (.ok a, s) front last.before ∧
        last.answer = .error err ∧ last.sharedAfter = s' := by
  constructor
  · intro h
    rcases List.eq_nil_or_concat turns with rfl | ⟨front, last, rfl⟩
    · simp [Turn.Linked] at h
    · rw [List.concat_eq_append] at h ⊢
      rw [Turn.Linked, List.map_append, List.map_append, ← List.cons_append] at h
      obtain ⟨hfront, hlast⟩ := List.append_inj' h rfl
      obtain ⟨hanswer, hshared⟩ := Prod.mk.inj (List.singleton_inj.1 hlast)
      refine ⟨front, last, rfl, hfront, ?_, hshared⟩
      cases hlast : last.answer with
      | error e => simpa [hlast, Except.map] using hanswer
      | ok answer => simp [hlast, Except.map] at hanswer
  · rintro ⟨front, last, rfl, hfront, hanswer, rfl⟩
    rw [Turn.Linked] at hfront ⊢
    rw [List.map_append, List.map_append, ← List.cons_append, hfront]
    simp [Turn.after, hanswer, Except.map]

/-- A hook that changes neither the name nor the stage of a plugin is passed on. -/
theorem relays_run
    (hkeeps : ∀ p a s x, hook p a s = some x → (x.2.1.name, x.2.1.stage) = (p.name, p.stage)) :
    Relays (run hook) hook where
  fold := fun a p => run_eq_foldlM p
  succeeds_iff := by
    intro a a' p p'
    rw [run_eq_some]
    constructor
    · rintro ⟨turns, unasked, hps, hps', htaken, hlinked, hall⟩
      obtain rfl := hall ⟨a', rfl⟩
      exact ⟨turns, by rw [hps, List.append_nil], by rw [hps', List.append_nil], htaken, hlinked⟩
    · rintro ⟨turns, hps, hps', htaken, hlinked⟩
      exact ⟨turns, [], by rw [hps, List.append_nil], by rw [hps', List.append_nil], htaken,
        hlinked, fun _ => rfl⟩
  fails_iff := by
    intro a err p p'
    rw [run_eq_some]
    constructor
    · rintro ⟨turns, unasked, hps, hps', htaken, hlinked, -⟩
      obtain ⟨front, last, rfl, hfront, hanswer, hshared⟩ := Turn.linked_error_iff.1 hlinked
      refine ⟨front, last, unasked, by simpa using hps, by simpa using hps',
        fun t ht => htaken t (List.mem_append_left _ ht), hfront, htaken last (by simp), hanswer,
        hshared⟩
    · rintro ⟨front, last, unasked, hps, hps', htaken, hfront, hlast, hanswer, hshared⟩
      refine ⟨front ++ [last], unasked, by simpa using hps, by simpa using hps', ?_,
        Turn.linked_error_iff.2 ⟨front, last, rfl, hfront, hanswer, hshared⟩, ?_⟩
      · simpa [or_imp, forall_and] using ⟨htaken, hlast⟩
      · rintro ⟨_, h⟩
        cases h
  keeps_order := fun _ _ _ _ => map_plugins_run hkeeps

end Pipeline

namespace Plugin

variable {b : Nat}

theorem ofWalk_eq_some {ρ : Type} {make : ρ → Plugin σ} {w : Walk ρ α} {rules : ρ} {s : σ}
    {x : Except Error (Option α) × Plugin σ × σ} (h : ofWalk make w rules s = some x) :
    ∃ rules', x.2.1 = make rules' := by
  rw [ofWalk] at h
  rcases hw : w rules with _ | ⟨err | a, rules'⟩ <;> rw [hw] at h <;> cases h
  · exact ⟨rules', rfl⟩
  · exact ⟨rules', rfl⟩

theorem transformSelectors_keeps (p : Plugin σ) (chain : List String) (s : σ) (x)
    (h : p.transformSelectors b chain s = some x) :
    (x.2.1.name, x.2.1.stage) = (p.name, p.stage) := by
  cases p with
  | selectors aliases =>
    obtain ⟨rules, hrules⟩ := ofWalk_eq_some h
    rw [hrules]
    rfl
  | _ => cases h; rfl

theorem transformItems_keeps (p : Plugin σ) (items : List StyleItem) (s : σ) (x)
    (h : p.transformItems b items s = some x) :
    (x.2.1.name, x.2.1.stage) = (p.name, p.stage) := by
  cases p with
  | shortcuts aliases =>
    obtain ⟨rules, hrules⟩ := ofWalk_eq_some h
    rw [hrules]
    rfl
  | _ => cases h; rfl

theorem transformDefinitions_keeps (p : Plugin σ) (ds : List StyleDefinition) (s : σ) (x)
    (h : p.transformDefinitions ds s = some x) :
    (x.2.1.name, x.2.1.stage) = (p.name, p.stage) := by
  cases p <;> cases h <;> rfl

end Plugin

/-- Plugins are called in a fixed order, and hand on what passes through them.

A list of options comes to the plugins that are registered in it, one for each place: by stage,
and within a stage by the places, depth first. A group stands for its parts. Whatever the
plugins do, each transforming hook is a fold in this order, a plugin's answer taking the place
of what it was given; it succeeds if all plugins take one turn each, and fails with the error of
the first plugin that does, after one turn of each of those before it and no turn of a later
one. -/
theorem Pipeline.dispatches_in_order (options : List (PluginOption σ)) (budget : Nat) :
    (∃ leaves : List (List Nat × Plugin σ),
      leaves.map Prod.snd = arrange options ∧
      (∀ path p, (path, p) ∈ leaves ↔ (PluginOption.group options).At path p) ∧
      leaves.Pairwise fun x y =>
        x.2.stage.rank < y.2.stage.rank ∨ x.2.stage = y.2.stage ∧ x.1 < y.1) ∧
    (∀ before inner after : List (PluginOption σ),
      arrange (before ++ .group inner :: after) = arrange (before ++ inner ++ after)) ∧
    Relays (σ := σ) (transformSelectors budget) (Plugin.transformSelectors budget) ∧
    Relays (σ := σ) (transformItems budget) (Plugin.transformItems budget) ∧
    Relays (σ := σ) transformDefinitions Plugin.transformDefinitions :=
  ⟨⟨leavesByStage options, map_snd_leavesByStage options, fun _ _ => mem_leavesByStage,
      pairwise_leavesByStage options⟩,
    arrange_group,
    relays_run Plugin.transformSelectors_keeps,
    relays_run Plugin.transformItems_keeps,
    relays_run Plugin.transformDefinitions_keeps⟩

/-- The stage counts before the place of registration, and a group does not count. -/
example :
    let early : Plugin Unit := .custom { name := "early", stage := .pre }
    let first : Plugin Unit := .custom { name := "first" }
    let second : Plugin Unit := .custom { name := "second" }
    let late : Plugin Unit := .custom { name := "late", stage := .post }
    Pipeline.arrange [.plugin late, .group [.plugin first, .group [.plugin early]],
      .plugin second] = [early, first, second, late] := by
  rfl

end AtomicCss
