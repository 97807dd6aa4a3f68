import AtomicCss.Compile
import AtomicCss.Proofs.Distinct
import AtomicCss.Proofs.Engine.Naming
import AtomicCss.Proofs.Engine.Traces
import AtomicCss.Proofs.Meaning
import AtomicCss.Proofs.Store.Renaming
import Mathlib.Data.List.Forall2

/-!
# Compiling calls in another order

The calls of a batch share an engine, so what one of them leaves behind could matter to the
next one: what was remembered of aliases, the shortcuts that were kept, and the rules. With
the bundled plugins only the rules do, and they matter to their names only. In another order
the same calls succeed or fail again, enter the same declarations, and are answered with the
same slots under other names.

- `Engine.Says`: what an engine reads in items, whatever the budget.
- `Engine.Serves`: an engine that has used some calls of a batch.
- `useCalls_ok`, `useCalls_error`, `useCalls_ends`: what becomes of a batch, in terms of what
  is read in each call.
- `Reordered`: two compilations that differ by the order of the calls.
- `compileCalls_reordered`: compilations of the same calls in two orders.
-/

namespace AtomicCss

open Reading

variable {σ : Type}

/-! ## Answers -/

/-- What a permutation of rule names makes of the name that stands in the place of a slot:
the name of an unknown shortcut is not that of a rule. -/
def Slot.rename (ρ : Equiv.Perm String) : Slot → String → String
  | .unknown _, name => name
  | .declaration _, name => ρ name

namespace Store.Renames

variable {ρ : Equiv.Perm String} {s s' : Store} {slots : List Slot} {names names' : List String}

/-- Slots are answered with the renamed names. -/
theorem names_eq (h : Renames ρ s s') (hnames : names.map some = slots.map (Slot.nameIn? s))
    (hnames' : names'.map some = slots.map (Slot.nameIn? s')) :
    names' = List.zipWith (Slot.rename ρ) slots names := by
  induction slots generalizing names names' with
  | nil => simpa using hnames'
  | cons slot slots ih =>
    obtain ⟨name, names, rfl⟩ : ∃ x xs, names = x :: xs := by
      cases names with
      | nil => cases hnames
      | cons x xs => exact ⟨x, xs, rfl⟩
    obtain ⟨name', names', rfl⟩ : ∃ x xs, names' = x :: xs := by
      cases names' with
      | nil => cases hnames'
      | cons x xs => exact ⟨x, xs, rfl⟩
    obtain ⟨hname, hnames⟩ := List.cons.inj hnames
    obtain ⟨hname', hnames'⟩ := List.cons.inj hnames'
    rw [List.zipWith_cons_cons, ih hnames hnames']
    congr 1
    cases slot with
    | unknown unresolved => exact (Option.some.inj hname').trans (Option.some.inj hname).symm
    | declaration d => exact Option.some.inj (hname'.trans (h.nameOf? hname.symm))

/-- Where no unknown shortcut has the name of a rule, all names are renamed. -/
theorem names_eq_map (h : Renames ρ s s') (hnames : names.map some = slots.map (Slot.nameIn? s))
    (hunknown : ∀ name, .unknown name ∈ slots → s.get? name = none) :
    List.zipWith (Slot.rename ρ) slots names = names.map ρ := by
  induction slots generalizing names with
  | nil =>
    obtain rfl : names = [] := by simpa using hnames
    rfl
  | cons slot slots ih =>
    cases names with
    | nil => rfl
    | cons name names =>
      obtain ⟨hname, hnames⟩ := List.cons.inj hnames
      have hrest := ih hnames fun name' hmem => hunknown name' (List.mem_cons_of_mem _ hmem)
      rw [List.zipWith_cons_cons, hrest, List.map_cons]
      congr 1
      cases slot with
      | unknown unresolved =>
        obtain rfl : name = unresolved := Option.some.inj hname
        exact (h.others (hunknown name List.mem_cons_self)).symm
      | declaration d => rfl

end Store.Renames

/-- An answer to items whose names are those of slots in a store, where the slots are what the
items say. -/
structure AnswersIn (v : Vocabulary) (s : Store) (items : List StyleItem) (o : UseOutcome)
    (slots : List Slot) : Prop where
  read : ∃ parts, Means (fun b => v.extractAll b items) (.ok parts) ∧ slots = merge parts
  names : o.names.map some = slots.map (Slot.nameIn? s)
  unknown : ∀ {name}, name ∈ o.unknown ↔ .unknown name ∈ slots

/-- A slot is among those of what items say. -/
def Vocabulary.Yields (v : Vocabulary) (items : List StyleItem) (slot : Slot) : Prop :=
  ∃ parts, Means (fun b => v.extractAll b items) (.ok parts) ∧ slot ∈ merge parts

theorem Vocabulary.means_unique {v : Vocabulary} {items : List StyleItem}
    {r r' : Except Error (List Extracted)} (h : Means (fun b => v.extractAll b items) r)
    (h' : Means (fun b => v.extractAll b items) r') : r = r' :=
  h.unique (v.rising_extractAll items) h'

namespace AnswersIn

variable {v : Vocabulary} {s s' : Store} {items : List StyleItem} {o : UseOutcome}
  {slots : List Slot}

theorem mem_iff_yields (h : AnswersIn v s items o slots) {slot : Slot} :
    slot ∈ slots ↔ v.Yields items slot := by
  obtain ⟨parts, hparts, rfl⟩ := h.read
  refine ⟨fun hslot => ⟨parts, hparts, hslot⟩, fun ⟨parts', hparts', hslot⟩ => ?_⟩
  obtain rfl := Except.ok.inj (Vocabulary.means_unique hparts' hparts)
  exact hslot

/-- Names in a store are still the names when rules have been appended. -/
theorem mono {namePrefix : String} (h : AnswersIn v s items o slots)
    (hs : s.Canonical namePrefix) (hs' : s'.Canonical namePrefix) (hle : s.rules <+: s'.rules) :
    AnswersIn v s' items o slots :=
  ⟨h.read, Store.names_eq_mono hs hs' hle h.names, h.unknown⟩

end AnswersIn

namespace Engine

variable {v : Vocabulary} {e e' : Engine σ} {b : Nat} {items : List StyleItem}

/-! ## One call -/

/-- What an engine reads in items, with some budget. -/
def Says (e : Engine σ) (items : List StyleItem) (r : Except Error (List Extracted)) : Prop :=
  ∃ b e', extractAll b items e = some (r, e')

theorem Speaks.means_iff_says (h : e.Speaks v) {r : Except Error (List Extracted)} :
    e.Says items r ↔ Means (fun b => v.extractAll b items) r := by
  constructor
  · rintro ⟨b, e', hread⟩
    exact ((tracks_extractAll items).answers (Alike.refl h) hread).2
  · rintro ⟨b, hr⟩
    obtain ⟨e', hread⟩ := (tracks_extractAll items).follows (Alike.refl h) hr
    exact ⟨b, e', hread⟩

theorem mem_unknown_addSlots {slots : List Slot} {name : String} {e : Engine σ}
    {o : UseOutcome} :
    name ∈ (e.addSlots o slots).1.unknown ↔ name ∈ o.unknown ∨ .unknown name ∈ slots := by
  rw [addSlots_unknown, mem_foldl_pushNew, Slot.mem_filterMap_unknown_iff]

theorem mem_declarations_addSlots {slots : List Slot} {d : Declaration} :
    ∀ {e : Engine σ} {o : UseOutcome}, e.StoreCanonical →
      (d ∈ (e.addSlots o slots).2.store.declarations ↔
        d ∈ e.store.declarations ∨ .declaration d ∈ slots) := by
  induction slots with
  | nil => simp [addSlots]
  | cons slot slots ih =>
    intro e o he
    cases slot with
    | unknown name =>
      rw [addSlots, ih he, List.mem_cons]
      simp
    | declaration d' =>
      rw [addSlots_declaration, ih (addDeclaration_canonical he d').1, addDeclaration_store,
        Store.mem_declarations_intern he, List.mem_cons, Slot.declaration.injEq]
      tauto

/-- An engine that has used calls of a batch: it speaks the vocabulary that it has spoken from
the beginning, and its store is canonical. -/
structure Serves (v : Vocabulary) (e : Engine σ) : Prop where
  speaks : e.Speaks v
  canonical : e.StoreCanonical

theorem useStyles_ok {o : UseOutcome} (he : e.Serves v)
    (h : useStyles b items e = some (.ok o, e')) :
    e'.Serves v ∧ e.Extends e' ∧ ∃ slots, AnswersIn v e'.store items o slots ∧
      ∀ d, d ∈ e'.store.declarations ↔ d ∈ e.store.declarations ∨ .declaration d ∈ slots := by
  rcases useStyles_eq_some.1 h with ⟨err, -, herr⟩ | ⟨parts, e₁, hread, ho, rfl⟩
  · cases herr
  obtain rfl := Except.ok.inj ho
  obtain ⟨halike, hsays⟩ := (tracks_extractAll items).answers (Alike.refl he.speaks) hread
  obtain ⟨hcanonical, hext⟩ :=
    storeCanonical_of_fixed (preserves_extractAll _ _ _ _ _ hread) he.canonical
  obtain ⟨hcanonical', hext', hnames⟩ :
      (e₁.addSlots {} (merge parts)).2.StoreCanonical ∧ _ ∧ _ := addSlots_canonical hcanonical
  have hspeaks' := (addSlots_alike (Alike.refl halike.right) {} (merge parts)).2.left
  refine ⟨⟨hspeaks', hcanonical'⟩, hext.trans hext', merge parts,
    ⟨⟨parts, hsays, rfl⟩, by simpa using hnames, ?_⟩, fun d => ?_⟩
  · intro name
    rw [mem_unknown_addSlots]
    simp
  · rw [mem_declarations_addSlots hcanonical, halike.store]

theorem useStyles_error {err : Error} (he : e.Serves v)
    (h : useStyles b items e = some (.error err, e')) :
    Means (fun b => v.extractAll b items) (.error err) := by
  rcases useStyles_eq_some.1 h with ⟨_, hread, herr⟩ | ⟨_, _, -, hok, -⟩
  · cases herr
    exact ((tracks_extractAll items).answers (Alike.refl he.speaks) hread).2
  · cases hok

end Engine

/-! ## New engines -/

/-- A hook that comes to a result in every plugin does so in a pipeline. -/
theorem Pipeline.exists_run {α : Type} {hook : Plugin σ → α → σ → HookResult σ α}
    (h : ∀ p a s, ∃ x, hook p a s = some x) (a : α) (p : Pipeline σ) :
    ∃ x, run hook a p = some x := by
  have hthrough (ps : List (Plugin σ)) (a : α) (s : σ) : ∃ x, through hook ps a s = some x := by
    induction ps generalizing a s with
    | nil => exact ⟨_, rfl⟩
    | cons p ps ih =>
      obtain ⟨⟨_ | answer, p', s'⟩, hp⟩ := h p a s
      · exact ⟨_, by rw [through, hp]⟩
      · obtain ⟨⟨result, ps', s''⟩, hps⟩ := ih (answer.getD a) s'
        exact ⟨(result, p' :: ps', s''), by rw [through, hp]; simp only [hps]⟩
  obtain ⟨⟨result, ps, s⟩, hps⟩ := hthrough p.plugins a p.shared
  exact ⟨_, by rw [run, hps]⟩

/-- Configuring plugins takes no budget, so it always comes to a result. -/
theorem Engine.exists_create (config : EngineConfig σ) (shared : σ) :
    ∃ r, create config shared = some r := by
  have hdraft (p : Plugin σ) (d : Draft) (s : σ) : ∃ x, p.configDraft d s = some x := by
    cases p <;> exact ⟨_, rfl⟩
  have hsettled (p : Plugin σ) (c : Settling) (s : σ) : ∃ x, p.configSettled c s = some x := by
    cases p <;> simp only [Plugin.configSettled, Plugin.configAliases] <;> split <;> exact ⟨_, rfl⟩
  have hsettle (w : Pipeline σ) : ∃ x, settle config.draft w = some x := by
    obtain ⟨⟨_ | draft, p⟩, hp⟩ := Pipeline.exists_run hdraft config.draft w
    · exact ⟨_, Walk.bind_run_error hp⟩
    · obtain ⟨x, hx⟩ := Pipeline.exists_run hsettled draft.settle p
      exact ⟨x, (Walk.bind_run_ok hp).trans hx⟩
  obtain ⟨⟨_ | ⟨settled, warnings⟩, p⟩, hp⟩ := hsettle ⟨Pipeline.arrange config.plugins, shared⟩
  · exact ⟨_, by rw [create, hp]⟩
  · exact ⟨_, by rw [create, hp]⟩

/-! ## A batch of calls -/

theorem exists_rel_of_mem {α β : Type} {R : α → β → Prop} {as : List α} {bs : List β} {a : α}
    (h : List.Forall₂ R as bs) (ha : a ∈ as) : ∃ b, R a b := by
  induction h with
  | nil => cases ha
  | cons hR _ ih => exact (List.mem_cons.1 ha).elim (fun heq => ⟨_, heq ▸ hR⟩) ih

theorem exists_rel_of_getElem?_map {α β γ : Type} {R : α → β → Prop} {f : β → γ} {as : List α}
    {bs : List β} {i : Nat} {a : α} {c : γ} (h : List.Forall₂ R as bs) (ha : as[i]? = some a)
    (hc : (bs.map f)[i]? = some c) : ∃ b, R a b ∧ f b = c := by
  induction h generalizing i with
  | nil => cases ha
  | cons hR _ ih =>
    cases i with
    | zero =>
      obtain rfl := Option.some.inj ha
      exact ⟨_, hR, Option.some.inj hc⟩
    | succ i => exact ih ha hc

section

variable {v : Vocabulary} {e e' : Engine σ} {b : Nat} {items : List StyleItem}
  {calls : List (List StyleItem)}

theorem useCalls_cons : useCalls (σ := σ) b (items :: calls) =
    (do let o ← Engine.useStyles b items; return o :: (← useCalls b calls)) := by
  simp [useCalls, Walk.collect_cons]

/-- The first call ends a batch, or the others go on with the engine that it leaves. -/
theorem useCalls_cons_eq_some {r : Except Error (List UseOutcome)} :
    useCalls b (items :: calls) e = some (r, e') ↔
      (∃ err, Engine.useStyles b items e = some (.error err, e') ∧ r = .error err) ∨
      ∃ o e₁ rest, Engine.useStyles b items e = some (.ok o, e₁) ∧
        useCalls b calls e₁ = some (rest, e') ∧ r = rest.map (o :: ·) := by
  rw [useCalls_cons, Walk.bind_eq_some]
  simp only [Walk.map_eq_some, exists_and_left]

theorem useCalls_ok {outcomes : List UseOutcome} (he : e.Serves v)
    (h : useCalls b calls e = some (.ok outcomes, e')) :
    e'.Serves v ∧ e.Extends e' ∧
      List.Forall₂ (fun items o => ∃ slots, AnswersIn v e'.store items o slots) calls outcomes ∧
      ∀ d, d ∈ e'.store.declarations ↔
        d ∈ e.store.declarations ∨ ∃ items ∈ calls, v.Yields items (.declaration d) := by
  induction calls generalizing e outcomes with
  | nil =>
    obtain ⟨hok, rfl⟩ := Prod.mk.inj (Option.some.inj h)
    obtain rfl := Except.ok.inj hok
    exact ⟨he, Engine.Extends.refl e, .nil, by simp⟩
  | cons items calls ih =>
    rcases useCalls_cons_eq_some.1 h with ⟨err, -, herr⟩ | ⟨o, e₁, rest, huse, hrest, hok⟩
    · cases herr
    cases rest with
    | error err => cases hok
    | ok rest =>
      obtain rfl := Except.ok.inj hok
      obtain ⟨he₁, hext₁, slots, hanswer, hdeclarations₁⟩ := Engine.useStyles_ok he huse
      obtain ⟨he', hext, hanswers, hdeclarations⟩ := ih he₁ hrest
      -- the names that the first call was answered with are still the names in the end
      have hanswer' := hanswer.mono he₁.canonical (hext.config ▸ he'.canonical) hext.rules
      refine ⟨he', hext₁.trans hext, .cons ⟨slots, hanswer'⟩ hanswers, fun d => ?_⟩
      rw [hdeclarations, hdeclarations₁, hanswer.mem_iff_yields, or_assoc]
      simp

/-- A batch fails only if something in it does. -/
theorem useCalls_error {err : Error} (he : e.Serves v)
    (h : useCalls b calls e = some (.error err, e')) :
    ∃ items ∈ calls, Means (fun b => v.extractAll b items) (.error err) := by
  induction calls generalizing e with
  | nil => cases (Prod.mk.inj (Option.some.inj h)).1
  | cons items calls ih =>
    rcases useCalls_cons_eq_some.1 h with ⟨err', huse, herr⟩ | ⟨o, e₁, rest, huse, hrest, hr⟩
    · cases herr
      exact ⟨items, List.mem_cons_self, Engine.useStyles_error he huse⟩
    · cases rest with
      | ok rest => cases hr
      | error err' =>
        cases hr
        obtain ⟨items', hmem, hfails⟩ := ih (Engine.useStyles_ok he huse).1 hrest
        exact ⟨items', List.mem_cons_of_mem _ hmem, hfails⟩

/-- A batch ends if its calls can be read with one budget. -/
theorem useCalls_ends (he : e.Serves v)
    (h : ∀ items ∈ calls, ∃ r, Gives (v.extractAll b items) r) :
    ∃ x, useCalls b calls e = some x := by
  induction calls generalizing e with
  | nil => exact ⟨_, rfl⟩
  | cons items calls ih =>
    obtain ⟨r, hr⟩ := h items List.mem_cons_self
    obtain ⟨e₁, hread⟩ :=
      (Engine.tracks_extractAll items).follows (Engine.Alike.refl he.speaks) hr
    cases r with
    | error err =>
      have huse := Engine.useStyles_eq_some.2 (.inl ⟨err, hread, rfl⟩)
      exact ⟨_, useCalls_cons_eq_some.2 (.inl ⟨err, huse, rfl⟩)⟩
    | ok parts =>
      have huse := Engine.useStyles_eq_some.2 (.inr ⟨parts, e₁, hread, rfl, rfl⟩)
      obtain ⟨⟨rest, e'⟩, hrest⟩ := ih (Engine.useStyles_ok he huse).1
        fun items' hmem => h items' (List.mem_cons_of_mem _ hmem)
      exact ⟨_, useCalls_cons_eq_some.2 (.inr ⟨_, _, rest, huse, hrest, rfl⟩)⟩

/-- A batch that ends has come to the end of its first call. -/
theorem exists_means_of_useCalls {x : Except Error (List UseOutcome) × Engine σ} (he : e.Serves v)
    (h : useCalls b (items :: calls) e = some x) :
    ∃ r, Means (fun b => v.extractAll b items) r := by
  rcases useCalls_cons_eq_some.1 h with ⟨err, huse, -⟩ | ⟨o, e₁, rest, huse, -⟩
  · exact ⟨_, Engine.useStyles_error he huse⟩
  · obtain ⟨-, -, slots, hanswer, -⟩ := Engine.useStyles_ok he huse
    obtain ⟨parts, hparts, -⟩ := hanswer.read
    exact ⟨_, hparts⟩

/-- One budget is enough for all calls that can be read. -/
theorem exists_budget (h : ∀ items ∈ calls, ∃ r, Means (fun b => v.extractAll b items) r) :
    ∃ b, ∀ items ∈ calls, ∃ r, Gives (v.extractAll b items) r := by
  induction calls with
  | nil => exact ⟨0, fun _ h => nomatch h⟩
  | cons items calls ih =>
    obtain ⟨r, b, hb⟩ := h items List.mem_cons_self
    obtain ⟨c, hc⟩ := ih fun items' hmem => h items' (List.mem_cons_of_mem _ hmem)
    refine ⟨max b c, fun items' hmem => ?_⟩
    rcases List.mem_cons.1 hmem with rfl | hmem
    · exact ⟨r, v.rising_extractAll _ b _ (Nat.le_max_left b c) _ hb⟩
    · obtain ⟨r', hr'⟩ := hc items' hmem
      exact ⟨r', v.rising_extractAll _ c _ (Nat.le_max_right b c) _ hr'⟩

/-- What the calls of a batch say decides whether it succeeds. -/
theorem useCalls_succeeds_iff (he : e.Serves v) :
    (∃ b outcomes e', useCalls b calls e = some (.ok outcomes, e')) ↔
      ∀ items ∈ calls, ∃ parts, Means (fun b => v.extractAll b items) (.ok parts) := by
  constructor
  · rintro ⟨b, outcomes, e', h⟩ items hitems
    obtain ⟨-, -, hanswers, -⟩ := useCalls_ok he h
    obtain ⟨o, slots, hanswer⟩ := exists_rel_of_mem hanswers hitems
    obtain ⟨parts, hparts, -⟩ := hanswer.read
    exact ⟨parts, hparts⟩
  · intro h
    obtain ⟨b, hb⟩ := exists_budget fun items hitems =>
      let ⟨parts, hok⟩ := h items hitems
      ⟨.ok parts, hok⟩
    obtain ⟨⟨_ | outcomes, e'⟩, hrun⟩ := useCalls_ends he hb
    · -- a batch fails only if a call does, and none does
      obtain ⟨items, hitems, hfails⟩ := useCalls_error he hrun
      obtain ⟨parts, hok⟩ := h items hitems
      cases Vocabulary.means_unique hok hfails
    · exact ⟨b, outcomes, e', hrun⟩

end

/-! ## Compilations -/

/-- A new engine `e₀` uses all calls and becomes `e`, and `c` is what this comes to. -/
structure Compiles (b : Nat) (config : EngineConfig σ) (shared : σ)
    (calls : List (List StyleItem)) (e₀ e : Engine σ) (c : Compilation)
    (warnings : List Warning) : Prop where
  created : Engine.create config shared = some (.ok (e₀, warnings))
  used : ∃ outcomes, useCalls b calls e₀ = some (.ok outcomes, e) ∧ c = Compilation.of outcomes e

/-- A compilation fails where the engine cannot be created or a call fails, and succeeds
otherwise. -/
theorem compileCalls_eq_some {b : Nat} {config : EngineConfig σ} {shared : σ}
    {calls : List (List StyleItem)} {r : Except Error (Compilation × List Warning)} :
    compileCalls b config shared calls = some r ↔
      (∃ err, Engine.create config shared = some (.error err) ∧ r = .error err) ∨
      ∃ e₀ warnings result e, Engine.create config shared = some (.ok (e₀, warnings)) ∧
        useCalls b calls e₀ = some (result, e) ∧
        r = result.map fun outcomes => (Compilation.of outcomes e, warnings) := by
  rw [compileCalls]
  rcases Engine.create config shared with _ | ⟨err | ⟨e₀, warnings⟩⟩
  · simp
  · simp [eq_comm]
  · dsimp only
    rcases huse : useCalls b calls e₀ with _ | ⟨_ | outcomes, e⟩
    · simp [huse]
    · simp [huse, Except.map, eq_comm]
    · simp [huse, Except.map, eq_comm]

/-- How a compilation `c` of calls by the new engine `e₀`, with the store `s` in the end,
differs from a compilation `c'` of calls in another order, with the store `s'`: there are as
many rules, for the same declarations, and the same unknown shortcuts, and one permutation of
names turns the answers to each call into each other, slot by slot. -/
structure Reordered (e₀ : Engine σ) (calls calls' : List (List StyleItem)) (c c' : Compilation)
    (s s' : Store) : Prop where
  ruleCount : c'.ruleCount = c.ruleCount
  declarations : s.declarations.Perm s'.declarations
  unknown : ∀ name, name ∈ c'.unknown ↔ name ∈ c.unknown
  answered : c.names.length = calls.length ∧ c'.names.length = calls'.length
  renamed : ∃ ρ, Store.Renames ρ s s' ∧
    ∀ (i j : Nat) (items : List StyleItem) (names names' : List String),
    calls[i]? = some items → calls'[j]? = some items →
    c.names[i]? = some names → c'.names[j]? = some names' →
    ∃ parts, e₀.Says items (.ok parts) ∧
      names.map some = (merge parts).map (Slot.nameIn? s) ∧
      names' = List.zipWith (Slot.rename ρ) (merge parts) names ∧
      ((∀ name ∈ c.unknown, s.get? name = none) → names' = names.map ρ)

section

variable {v : Vocabulary} {calls calls' : List (List StyleItem)} {outcomes : List UseOutcome}
  {e e' e₀ : Engine σ} {s : Store}

/-- A compilation reports the unknown shortcuts of all calls. -/
theorem mem_unknown_iff
    (h : List.Forall₂ (fun items o => ∃ slots, AnswersIn v s items o slots) calls outcomes)
    {name : String} : name ∈ (Compilation.of outcomes e).unknown ↔
      ∃ items ∈ calls, v.Yields items (.unknown name) := by
  rw [Compilation.of, mem_distinct, List.mem_flatMap]
  induction h with
  | nil => simp
  | cons hanswer _ ih =>
    obtain ⟨slots, hanswer⟩ := hanswer
    simp only [List.mem_cons, exists_eq_or_imp, ih, hanswer.unknown, hanswer.mem_iff_yields]

theorem Compiles.reordered {b b' : Nat} {config : EngineConfig σ} {shared : σ}
    {c c' : Compilation} {warnings : List Warning} (he₀ : e₀.Serves v)
    (hperm : calls.Perm calls') (h : Compiles b config shared calls e₀ e c warnings)
    (h' : Compiles b' config shared calls' e₀ e' c' warnings) :
    Reordered e₀ calls calls' c c' e.store e'.store := by
  obtain ⟨outcomes, huse, rfl⟩ := h.used
  obtain ⟨outcomes', huse', rfl⟩ := h'.used
  obtain ⟨he, hext, hanswers, hdeclarations⟩ := useCalls_ok he₀ huse
  obtain ⟨he', hext', hanswers', hdeclarations'⟩ := useCalls_ok he₀ huse'
  have hs : e.store.Canonical e₀.config.namePrefix := hext.config ▸ he.canonical
  have hs' : e'.store.Canonical e₀.config.namePrefix := hext'.config ▸ he'.canonical
  -- what is in the stores depends on what the calls say, in whatever order
  have hsame : e.store.declarations.Perm e'.store.declarations := by
    refine (List.perm_ext_iff_of_nodup (Store.nodup_declarations hs)
      (Store.nodup_declarations hs')).2 fun d => ?_
    simp only [hdeclarations, hdeclarations', hperm.mem_iff]
  obtain ⟨ρ, hρ⟩ := Store.exists_renames hs hs' hsame
  refine ⟨?_, hsame, fun name => ?_, ?_, ρ, hρ, ?_⟩
  · show e'.store.size = e.store.size
    rw [Store.size_eq_length_declarations hs, Store.size_eq_length_declarations hs',
      hsame.length_eq]
  · simp only [mem_unknown_iff hanswers, mem_unknown_iff hanswers', hperm.mem_iff]
  · simp [Compilation.of, hanswers.length_eq, hanswers'.length_eq]
  · intro i j items names names' hi hj hnames hnames'
    obtain ⟨o, ⟨slots, hanswer⟩, rfl⟩ := exists_rel_of_getElem?_map hanswers hi hnames
    obtain ⟨o', ⟨slots', hanswer'⟩, rfl⟩ := exists_rel_of_getElem?_map hanswers' hj hnames'
    -- the same items say the same
    obtain ⟨parts, hparts, rfl⟩ := hanswer.read
    obtain ⟨parts', hparts', rfl⟩ := hanswer'.read
    obtain rfl := Except.ok.inj (Vocabulary.means_unique hparts hparts')
    have hrenamed := hρ.names_eq hanswer.names hanswer'.names
    refine ⟨parts, he₀.speaks.means_iff_says.2 hparts, hanswer.names, hrenamed, fun hunknown => ?_⟩
    rw [hrenamed]
    refine hρ.names_eq_map hanswer.names fun name hname => hunknown name ?_
    exact (mem_unknown_iff hanswers).2
      ⟨items, List.mem_of_getElem? hi, hanswer.mem_iff_yields.1 hname⟩

/-- Compilation ends where every call can be read. -/
theorem compileCalls_ends {config : EngineConfig σ} {shared : σ} {warnings : List Warning}
    (hcreate : Engine.create config shared = some (.ok (e₀, warnings))) (he₀ : e₀.Serves v)
    (h : ∀ items ∈ calls, ∃ r, Means (fun b => v.extractAll b items) r) :
    ∃ b r, compileCalls b config shared calls = some r := by
  obtain ⟨b, hb⟩ := exists_budget h
  obtain ⟨⟨result, e⟩, huse⟩ := useCalls_ends he₀ hb
  exact ⟨b, _, compileCalls_eq_some.2 (.inr ⟨e₀, warnings, result, e, hcreate, huse, rfl⟩)⟩

end

section

variable {config : EngineConfig σ} {shared : σ} {calls calls' : List (List StyleItem)}
  (hserves : ∀ {e₀ warnings}, Engine.create config shared = some (.ok (e₀, warnings)) →
    e₀.Serves e₀.vocabulary)

include hserves

/-- If one order of calls is compiled without an error, every order is. -/
theorem exists_compileCalls_ok_of_perm (hperm : calls.Perm calls')
    (h : ∃ b x, compileCalls b config shared calls = some (.ok x)) :
    ∃ b x, compileCalls b config shared calls' = some (.ok x) := by
  obtain ⟨b, x, h⟩ := h
  rcases compileCalls_eq_some.1 h with ⟨_, -, herr⟩ | ⟨e₀, warnings, result, e, hcreate, huse, hok⟩
  · cases herr
  cases result with
  | error err => cases hok
  | ok outcomes =>
    have hall := (useCalls_succeeds_iff (hserves hcreate)).1 ⟨b, outcomes, e, huse⟩
    obtain ⟨b', outcomes', e', huse'⟩ := (useCalls_succeeds_iff (hserves hcreate)).2
      fun items hitems => hall items (hperm.mem_iff.2 hitems)
    exact ⟨b', _, compileCalls_eq_some.2 (.inr ⟨e₀, warnings, _, e', hcreate, huse', rfl⟩)⟩

/-- Two orders of calls fail alike, or both are compiled and differ in names only. -/
theorem reordered_of_compileCalls (hperm : calls.Perm calls') {b b' : Nat}
    {r r' : Except Error (Compilation × List Warning)}
    (h : compileCalls b config shared calls = some r)
    (h' : compileCalls b' config shared calls' = some r') :
    (∃ err err', r = .error err ∧ r' = .error err') ∨
    ∃ c c' warnings e₀ e e', r = .ok (c, warnings) ∧ r' = .ok (c', warnings) ∧
      Compiles b config shared calls e₀ e c warnings ∧
      Compiles b' config shared calls' e₀ e' c' warnings ∧
      Reordered e₀ calls calls' c c' e.store e'.store := by
  rcases compileCalls_eq_some.1 h with
    ⟨err, hcreate, rfl⟩ | ⟨e₀, warnings, result, e, hcreate, huse, rfl⟩ <;>
  rcases compileCalls_eq_some.1 h' with
    ⟨err', hcreate', rfl⟩ | ⟨_, _, result', e', hcreate', huse', rfl⟩ <;>
  cases hcreate.symm.trans hcreate'
  · exact .inl ⟨err, _, rfl, rfl⟩
  -- a call that fails in one order does so in the other one
  have hfails {result₁ result₂ : Except Error (List UseOutcome)} {b₁ b₂ : Nat}
      {e₁ e₂ : Engine σ} {calls₁ calls₂ : List (List StyleItem)} (hperm : calls₁.Perm calls₂)
      (h₁ : useCalls b₁ calls₁ e₀ = some (result₁, e₁))
      (h₂ : useCalls b₂ calls₂ e₀ = some (result₂, e₂)) {err : Error}
      (herr : result₁ = .error err) : ∃ err', result₂ = .error err' := by
    subst herr
    obtain ⟨items, hitems, hfails⟩ := useCalls_error (hserves hcreate) h₁
    cases result₂ with
    | error err' => exact ⟨err', rfl⟩
    | ok outcomes =>
      obtain ⟨parts, hok⟩ := (useCalls_succeeds_iff (hserves hcreate)).1 ⟨_, outcomes, _, h₂⟩
        items (hperm.mem_iff.1 hitems)
      cases Vocabulary.means_unique hok hfails
  cases result with
  | error err =>
    obtain ⟨err', rfl⟩ := hfails hperm huse huse' rfl
    exact .inl ⟨err, err', rfl, rfl⟩
  | ok outcomes =>
    cases result' with
    | error err' =>
      obtain ⟨err, herr⟩ := hfails hperm.symm huse' huse rfl
      cases herr
    | ok outcomes' =>
      have hcompiles : Compiles b config shared calls e₀ e _ warnings :=
        ⟨hcreate, outcomes, huse, rfl⟩
      have hcompiles' : Compiles b' config shared calls' e₀ e' _ warnings :=
        ⟨hcreate, outcomes', huse', rfl⟩
      exact .inr ⟨_, _, warnings, e₀, e, e', rfl, rfl, hcompiles, hcompiles',
        hcompiles.reordered (hserves hcreate) hperm hcompiles'⟩

/-- Compilation ends in every order of the calls exactly if it ends for each of them. -/
theorem compileCalls_ends_iff :
    (∀ order, calls.Perm order → ∃ b r, compileCalls b config shared order = some r) ↔
      ∀ items ∈ calls, ∃ b r, compileCalls b config shared [items] = some r := by
  have hfirst {b : Nat} {items : List StyleItem} {rest : List (List StyleItem)}
      {r : Except Error (Compilation × List Warning)} {e₀ : Engine σ} {warnings : List Warning}
      (hcreate : Engine.create config shared = some (.ok (e₀, warnings)))
      (h : compileCalls b config shared (items :: rest) = some r) :
      ∃ r, Means (fun b => e₀.vocabulary.extractAll b items) r := by
    rcases compileCalls_eq_some.1 h with ⟨err, hcreate', -⟩ | ⟨_, _, _, _, hcreate', huse, -⟩ <;>
      cases hcreate.symm.trans hcreate'
    exact exists_means_of_useCalls (hserves hcreate) huse
  constructor
  · intro h items hitems
    -- in some order the call comes first
    obtain ⟨before, after, rfl⟩ := List.append_of_mem hitems
    obtain ⟨b, r, hr⟩ := h (items :: (before ++ after)) List.perm_middle
    rcases compileCalls_eq_some.1 hr with
      ⟨err, hcreate, -⟩ | ⟨e₀, warnings, _, _, hcreate, -, -⟩
    · exact ⟨b, _, compileCalls_eq_some.2 (.inl ⟨err, hcreate, rfl⟩)⟩
    · exact compileCalls_ends hcreate (hserves hcreate) (by simpa using hfirst hcreate hr)
  · intro h order hperm
    obtain ⟨err | ⟨e₀, warnings⟩, hcreated⟩ := Engine.exists_create config shared
    · exact ⟨0, _, compileCalls_eq_some.2 (.inl ⟨err, hcreated, rfl⟩)⟩
    · refine compileCalls_ends hcreated (hserves hcreated) fun items hitems => ?_
      obtain ⟨b, r, hr⟩ := h items (hperm.mem_iff.2 hitems)
      exact hfirst hcreated hr

end

/-- The order of calls matters to names only. Let calls be compiled in two orders, with the
bundled plugins and any pattern rules. If both compilations end, both fail, or both succeed
and differ in the names of rules only. One of them succeeds exactly if the other one does; and
compilation ends in every order exactly if it ends for each of the calls alone. -/
theorem compileCalls_reordered {draft : Draft} {shared : σ}
    {selectorPatterns : Table String (PatternRule (List String))}
    {shortcutPatterns : Table String (PatternRule (List StyleItem))}
    {calls calls' : List (List StyleItem)} (hperm : calls.Perm calls') :
    let config : EngineConfig σ := ⟨draft, [.coreWith selectorPatterns shortcutPatterns]⟩
    (∀ b b' r r', compileCalls b config shared calls = some r →
      compileCalls b' config shared calls' = some r' →
      (∃ err err', r = .error err ∧ r' = .error err') ∨
      ∃ c c' warnings e₀ e e', r = .ok (c, warnings) ∧ r' = .ok (c', warnings) ∧
        Compiles b config shared calls e₀ e c warnings ∧
        Compiles b' config shared calls' e₀ e' c' warnings ∧
        Reordered e₀ calls calls' c c' e.store e'.store) ∧
    ((∃ b x, compileCalls b config shared calls = some (.ok x)) ↔
      ∃ b x, compileCalls b config shared calls' = some (.ok x)) ∧
    ((∀ order, calls.Perm order → ∃ b r, compileCalls b config shared order = some r) ↔
      ∀ items ∈ calls, ∃ b r, compileCalls b config shared [items] = some r) := by
  intro config
  have hserves {e₀ : Engine σ} {warnings : List Warning}
      (hcreate : Engine.create config shared = some (.ok (e₀, warnings))) :
      e₀.Serves e₀.vocabulary :=
    ⟨Engine.speaks_of_create hcreate, Engine.storeCanonical_of_create hcreate⟩
  refine ⟨fun b b' r r' h h' => ?_, ⟨exists_compileCalls_ok_of_perm hserves hperm,
    exists_compileCalls_ok_of_perm hserves hperm.symm⟩, compileCalls_ends_iff hserves⟩
  exact reordered_of_compileCalls hserves hperm h h'

/-- Red text and a margin behind an unknown shortcut change places, and so do their names. -/
theorem compileCalls_reordered_swap :
    let config : EngineConfig Unit := ⟨{ namePrefix := some "x-" }, [.coreWith [] []]⟩
    let red : List StyleItem := [.definition [("color", .property (.scalar (.text "red")))]]
    let margin : List StyleItem :=
      [.shortcut "mystery", .definition [("margin", .property (.scalar (.text "0")))]]
    ∃ c c' e₀ e e', Compiles 2 config () [red, margin] e₀ e c [] ∧
      Compiles 2 config () [margin, red] e₀ e' c' [] ∧
      c.names = [["x-a"], ["mystery", "x-b"]] ∧ c'.names = [["mystery", "x-a"], ["x-b"]] ∧
      Reordered e₀ [red, margin] [margin, red] c c' e.store e'.store := by
  intro config red margin
  have hrun : (compileCalls 2 config () [red, margin]).map
      (·.map fun x => (x.1.names, x.2)) = some (.ok ([["x-a"], ["mystery", "x-b"]], [])) := by
    -- both sides are closed once the local definitions are written out
    dsimp +zetaDelta only
    rfl
  have hrun' : (compileCalls 2 config () [margin, red]).map
      (·.map fun x => (x.1.names, x.2)) = some (.ok ([["mystery", "x-a"], ["x-b"]], [])) := by
    dsimp +zetaDelta only
    rfl
  obtain ⟨r, hr, hnames⟩ := Option.map_eq_some_iff.1 hrun
  obtain ⟨r', hr', hnames'⟩ := Option.map_eq_some_iff.1 hrun'
  rcases (compileCalls_reordered (List.Perm.swap margin red [])).1 2 2 r r' hr hr' with
    ⟨err, _, rfl, -⟩ | ⟨c, c', warnings, e₀, e, e', rfl, rfl, hc, hc', hreordered⟩
  · cases hnames
  · obtain ⟨hfirst, hwarnings⟩ := Prod.mk.inj (Except.ok.inj hnames)
    obtain ⟨hsecond, -⟩ := Prod.mk.inj (Except.ok.inj hnames')
    obtain rfl : warnings = [] := hwarnings
    exact ⟨c, c', e₀, e, e', hc, hc', hfirst, hsecond, hreordered⟩

end AtomicCss
