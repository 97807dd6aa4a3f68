import AtomicCss.Proofs.Extraction.Vocabulary

/-!
# Where extraction leads

What items say is found by walking from definition to definition. Alias cycles end
the walk with an error, but nothing keeps a definition from leading to itself: the
items under one of its keys may be a shortcut that stands for the definition. This
file says which definitions a walk enters, and that the walk never ends if one of
them leads back to itself.

- `Vocabulary.steps`: the definitions that the walk through a definition enters one
  after the other, with an error as the end of all steps.
- `Vocabulary.Passes`: a definition whose walk ends without an error.
- `Vocabulary.Opens`, `Vocabulary.Enters`: a definition is entered from another one,
  or from a list of items, because everything before it passes.
- `Vocabulary.Loops`: a list of items that leads to a definition that leads to itself.
- `Vocabulary.Runs`: readings that take given steps.
- `Vocabulary.not_gives_of_loops`: a list of items that loops is never read.
-/

namespace AtomicCss.Vocabulary

open Reading Relation

variable (v : Vocabulary) (n : Nat)

/-! ## Steps -/

/-- Every alias is unfolded within the budget `n`. -/
structure Enough : Prop where
  selector : ∀ s, ∃ r, Gives (v.selector n s) r
  item : ∀ i, ∃ r, Gives (v.item n i) r

/-- Is the selector free of cycles? -/
def resolves (key : String) : Bool :=
  match v.selector n key () with
  | some (.ok _, _) => true
  | _ => false

/-- The definition that an expanded item enters. A name that is left enters none. -/
def itemStep : StyleItem → List (Option StyleDefinition)
  | .shortcut _ => []
  | .definition d => [some d]

/-- The definitions that a list of items enters, or an error. -/
def itemSteps (items : List StyleItem) : List (Option StyleDefinition) :=
  match v.expansion n items () with
  | some (.ok out, _) => out.flatMap itemStep
  | _ => [none]

/-- Steps under a key, each of which is an error if the key does not resolve. -/
def under (key : String) (steps : List (Option StyleDefinition)) :
    List (Option StyleDefinition) :=
  if v.resolves n key then steps else steps.map fun _ => none

/-- The definitions that an entry enters. -/
def entrySteps : String × StyleValue → List (Option StyleDefinition)
  | (_, .property _) => []
  | (key, .nested d) => v.under n key [some d]
  | (key, .items items) => v.under n key (v.itemSteps n items)

/-- The definitions that the walk through a definition enters, one after the other. -/
def steps (d : StyleDefinition) : List (Option StyleDefinition) :=
  (Important.apply v.important d).flatMap (v.entrySteps n)

/-- The definitions that a list of items of a caller enters, one after the other. -/
def callSteps (items : List StyleItem) : List (Option StyleDefinition) :=
  items.flatMap fun
    | .shortcut name => v.itemSteps n [.shortcut name]
    | .definition d => [some d]

/-- The walk through the definition ends, and without an error. -/
inductive Passes : StyleDefinition → Prop
  | mk {d : StyleDefinition} : none ∉ v.steps n d →
      (∀ d', some d' ∈ v.steps n d → Passes d') → Passes d

/-- All steps can be taken. -/
def Clear (steps : List (Option StyleDefinition)) : Prop :=
  none ∉ steps ∧ ∀ d, some d ∈ steps → v.Passes n d

/-- The steps come to a definition: all steps before it can be taken. -/
def Arrives (steps : List (Option StyleDefinition)) (d : StyleDefinition) : Prop :=
  ∃ before after, steps = before ++ some d :: after ∧ v.Clear n before

/-- The walk through the first definition enters the second one. -/
def Opens (d d' : StyleDefinition) : Prop := v.Arrives n (v.steps n d) d'

/-- A call with the items enters the definition. -/
def Enters (items : List StyleItem) (d : StyleDefinition) : Prop :=
  v.Arrives n (v.callSteps n items) d

/-- A call with the items comes to a definition that leads to itself. -/
def Loops (items : List StyleItem) : Prop :=
  ∃ d d', v.Enters n items d ∧ ReflTransGen (v.Opens n) d d' ∧ TransGen (v.Opens n) d' d'

variable {v n} {L M : List (Option StyleDefinition)} {d d' : StyleDefinition}

theorem passes_iff : v.Passes n d ↔ v.Clear n (v.steps n d) :=
  ⟨fun ⟨hnone, h⟩ => ⟨hnone, h⟩, fun ⟨hnone, h⟩ => ⟨hnone, h⟩⟩

theorem clear_nil : v.Clear n [] :=
  ⟨List.not_mem_nil, fun _ h => absurd h List.not_mem_nil⟩

theorem clear_append : v.Clear n (L ++ M) ↔ v.Clear n L ∧ v.Clear n M := by
  constructor
  · rintro ⟨hnone, h⟩
    obtain ⟨hL, hM⟩ : none ∉ L ∧ none ∉ M := by simpa [not_or] using hnone
    exact ⟨⟨hL, fun d hd => h d (List.mem_append_left M hd)⟩,
      ⟨hM, fun d hd => h d (List.mem_append_right L hd)⟩⟩
  · rintro ⟨⟨hL, hL'⟩, ⟨hM, hM'⟩⟩
    refine ⟨by simp [hL, hM], fun d hd => ?_⟩
    exact (List.mem_append.1 hd).elim (hL' d) (hM' d)

theorem Arrives.append_left (h : v.Arrives n L d) : v.Arrives n (L ++ M) d := by
  obtain ⟨before, after, rfl, hclear⟩ := h
  exact ⟨before, after ++ M, by simp, hclear⟩

theorem Arrives.append_right (hL : v.Clear n L) (h : v.Arrives n M d) :
    v.Arrives n (L ++ M) d := by
  obtain ⟨before, after, rfl, hclear⟩ := h
  exact ⟨L ++ before, after, by simp, clear_append.2 ⟨hL, hclear⟩⟩

/-- Steps come to a definition in their first or in their second part. -/
theorem Arrives.of_append (h : v.Arrives n (L ++ M) d) :
    v.Arrives n L d ∨ (v.Clear n L ∧ v.Arrives n M d) := by
  obtain ⟨before, after, heq, hclear⟩ := h
  rcases List.append_eq_append_iff.1 heq with ⟨rest, rfl, hM⟩ | ⟨rest, rfl, hrest⟩
  · obtain ⟨hL, hbefore⟩ := clear_append.1 hclear
    exact .inr ⟨hL, rest, after, hM, hbefore⟩
  · cases rest with
    | nil =>
      rw [List.append_nil]
      exact .inr ⟨hclear, [], after, by simpa using hrest.symm, clear_nil⟩
    | cons s rest =>
      obtain ⟨rfl, -⟩ := List.cons.inj hrest
      exact .inl ⟨before, rest, rfl, hclear⟩

theorem arrives_singleton : v.Arrives n [some d] d' ↔ d' = d := by
  constructor
  · rintro ⟨before, after, heq, -⟩
    cases before with
    | nil => exact (Option.some.inj (List.cons.inj heq).1).symm
    | cons s before => simp at heq
  · rintro rfl
    exact ⟨[], [], rfl, clear_nil⟩

theorem Arrives.mem (h : v.Arrives n L d) : some d ∈ L := by
  obtain ⟨before, after, rfl, -⟩ := h
  simp

/-! ## Readings that take steps -/

variable (v n)

/-- All selectors of a chain are free of cycles. -/
def Resolving (chain : List String) : Prop := ∀ key ∈ chain, v.resolves n key = true

/-- Under every chain that resolves the definition is read. -/
def Succeeds (d : StyleDefinition) : Prop :=
  ∀ chain, v.Resolving n chain → ∃ b out, Gives (v.definition b chain d) (.ok out)

/-- Under every chain that resolves the definition is read or fails, and if it is
read, it passes. -/
def Settles (d : StyleDefinition) : Prop :=
  ∀ chain, v.Resolving n chain →
    ∃ b r, Gives (v.definition b chain d) r ∧ ∀ out, r = .ok out → v.Passes n d

/-- Under no chain that resolves the budget is enough for the definition. -/
def Stuck (b : Nat) (d : StyleDefinition) : Prop :=
  ∀ chain, v.Resolving n chain → ∀ r, ¬ Gives (v.definition b chain d) r

/-- The readings take the steps one after the other, up to the first error. -/
structure Runs (o : Nat → Reading (List Extracted)) (L : List (Option StyleDefinition)) :
    Prop where
  rising : Rising o
  ends : (∀ d, v.Arrives n L d → v.Settles n d) →
    ∃ b r, Gives (o b) r ∧ ∀ out, r = .ok out → v.Clear n L
  passes : none ∉ L → (∀ d, some d ∈ L → v.Succeeds n d) → ∃ b out, Gives (o b) (.ok out)
  stuck : (∀ d, v.Passes n d → v.Succeeds n d) → ∀ {b d}, v.Arrives n L d →
    v.Stuck n b d → ∀ r, ¬ Gives (o b) r

variable {v n}

theorem runs_nil {o : Nat → Reading (List Extracted)} (ho : Rising o) {c : Nat}
    {out : List Extracted} (h : Gives (o c) (.ok out)) : v.Runs n o [] where
  rising := ho
  ends := fun _ => ⟨c, _, h, fun _ _ => clear_nil⟩
  passes := fun _ _ => ⟨c, out, h⟩
  stuck := fun _ _ _ hd => absurd hd.mem List.not_mem_nil

/-- Readings that can only fail. -/
theorem runs_error {o : Nat → Reading (List Extracted)} (ho : Rising o) {c : Nat} {e : Error}
    (h : Gives (o c) (.error e)) : v.Runs n o [none] where
  rising := ho
  ends := fun _ => ⟨c, _, h, fun _ hout => nomatch hout⟩
  passes := fun hnone => absurd (List.mem_singleton_self _) hnone
  stuck := fun _ _ _ hd => by
    obtain hmem := hd.mem
    simp at hmem

/-- A definition under a chain that resolves is one step. -/
theorem runs_definition {chain : List String} (hchain : v.Resolving n chain) :
    v.Runs n (fun b => v.definition b chain d) [some d] where
  rising := v.rising_definition chain d
  ends := by
    intro h
    obtain ⟨b, r, hr, hpasses⟩ := h d (arrives_singleton.2 rfl) chain hchain
    refine ⟨b, r, hr, fun out hout => ⟨by simp, fun d' hd' => ?_⟩⟩
    obtain rfl : d' = d := by simpa using hd'
    exact hpasses out hout
  passes := fun _ h => h d (List.mem_singleton_self _) chain hchain
  stuck := by
    intro _ b d' hd' hstuck
    obtain rfl := arrives_singleton.1 hd'
    exact hstuck chain hchain

/-- Readings of a list take the steps of its elements one after the other. -/
theorem runs_collect {α : Type} {f : α → Nat → Reading (List Extracted)}
    {st : α → List (Option StyleDefinition)} {as : List α}
    (h : ∀ a ∈ as, v.Runs n (f a) (st a)) :
    v.Runs n (fun c => Walk.collect (fun a => f a c) as) (as.flatMap st) := by
  induction as with
  | nil => exact runs_nil (c := 0) (rising_const _) (gives_pure.2 rfl)
  | cons a as ih =>
    have ha := h a List.mem_cons_self
    have has := ih fun x hx => h x (List.mem_cons_of_mem a hx)
    have hrising : Rising fun c => Walk.collect (fun a => f a c) (a :: as) :=
      rising_bind ha.rising fun _ => rising_bind has.rising fun _ => rising_const _
    rw [List.flatMap_cons]
    refine ⟨hrising, ?_, ?_, ?_⟩
    · intro hsettles
      obtain ⟨b, r, hr, hclear⟩ := ha.ends fun d hd => hsettles d hd.append_left
      cases r with
      | error e => exact ⟨b, _, gives_collect_cons.2 (.inl ⟨e, hr, rfl⟩), fun _ h => nomatch h⟩
      | ok here =>
        -- the steps of the first element were taken, so those behind it are come to
        obtain ⟨c, s, hs, hclear'⟩ := has.ends fun d hd =>
          hsettles d (hd.append_right (hclear here rfl))
        have hr' := ha.rising b (max b c) (Nat.le_max_left b c) _ hr
        have hs' := has.rising c (max b c) (Nat.le_max_right b c) _ hs
        cases s with
        | error e =>
          have hgiven : Gives (Walk.collect (fun a => f a (max b c)) (a :: as)) (.error e) :=
            gives_collect_cons.2 (.inr (.inl ⟨here, e, hr', hs', rfl⟩))
          exact ⟨_, _, hgiven, fun _ h => nomatch h⟩
        | ok rest =>
          have hgiven : Gives (Walk.collect (fun a => f a (max b c)) (a :: as))
              (.ok (here ++ rest)) := gives_collect_ok_cons.2 ⟨here, rest, hr', hs', rfl⟩
          have hboth : v.Clear n (st a ++ as.flatMap st) :=
            clear_append.2 ⟨hclear here rfl, hclear' rest rfl⟩
          exact ⟨_, _, hgiven, fun _ _ => hboth⟩
    · intro hnone hsucceeds
      obtain ⟨hnone, hnone'⟩ : none ∉ st a ∧ none ∉ as.flatMap st := by
        simpa only [List.mem_append, not_or] using hnone
      obtain ⟨b, here, hhere⟩ :=
        ha.passes hnone fun d hd => hsucceeds d (List.mem_append_left _ hd)
      obtain ⟨c, rest, hrest⟩ :=
        has.passes hnone' fun d hd => hsucceeds d (List.mem_append_right _ hd)
      have hhere' := ha.rising b (max b c) (Nat.le_max_left b c) _ hhere
      have hrest' := has.rising c (max b c) (Nat.le_max_right b c) _ hrest
      exact ⟨_, _, gives_collect_ok_cons.2 ⟨here, rest, hhere', hrest', rfl⟩⟩
    · intro hsucceeds b d hd hstuck r hr
      rcases hd.of_append with hd | ⟨hclear, hd⟩
      · -- the first element is not read
        rcases gives_collect_cons.1 hr with ⟨_, h, -⟩ | ⟨_, _, h, -⟩ | ⟨_, _, h, -⟩ <;>
          exact ha.stuck hsucceeds hd hstuck _ h
      · -- the first element does not fail, so the others are read
        obtain ⟨c, here, hhere⟩ :=
          ha.passes hclear.1 fun d hd => hsucceeds d (hclear.2 d hd)
        rcases gives_collect_cons.1 hr with ⟨_, h, -⟩ | ⟨_, _, -, h, -⟩ | ⟨_, _, -, h, -⟩
        · cases ha.rising.unique h hhere
        · exact has.stuck hsucceeds hd hstuck _ h
        · exact has.stuck hsucceeds hd hstuck _ h

/-- Readings of what other readings give, which end within the budget `n`. -/
theorem runs_bind {α : Type} {o : Nat → Reading α} {f : α → Nat → Reading (List Extracted)}
    {out : α} (ho : Rising o) (hout : Gives (o n) (.ok out)) (hf : ∀ a, Rising (f a))
    (h : v.Runs n (f out) L) : v.Runs n (fun c => o c >>= fun a => f a c) L where
  rising := rising_bind ho hf
  ends := by
    intro hsettles
    obtain ⟨b, r, hr, hclear⟩ := h.ends hsettles
    have hout' := ho n (max n b) (Nat.le_max_left n b) _ hout
    have hr' := (hf out) b (max n b) (Nat.le_max_right n b) _ hr
    exact ⟨_, r, gives_bind.2 (.inr ⟨out, hout', hr'⟩), hclear⟩
  passes := by
    intro hnone hsucceeds
    obtain ⟨b, parts, hparts⟩ := h.passes hnone hsucceeds
    have hout' := ho n (max n b) (Nat.le_max_left n b) _ hout
    have hparts' := (hf out) b (max n b) (Nat.le_max_right n b) _ hparts
    exact ⟨_, parts, gives_bind.2 (.inr ⟨out, hout', hparts'⟩)⟩
  stuck := by
    intro hsucceeds b d hd hstuck r hr
    -- with any budget the first reading gives `out` or nothing
    rcases gives_bind.1 hr with ⟨e, he, -⟩ | ⟨a, ha, hr⟩
    · cases ho.unique he hout
    · obtain rfl := Except.ok.inj (ho.unique ha hout)
      exact h.stuck hsucceeds hd hstuck r hr

/-! ## Chains -/

theorem resolves_eq_true {key : String} :
    v.resolves n key = true ↔ ∃ out, Gives (v.selector n key) (.ok out) := by
  unfold resolves Gives
  rcases v.selector n key () with _ | ⟨_ | out, ⟨⟩⟩ <;> simp

theorem Resolving.snoc {chain : List String} {key : String} (hchain : v.Resolving n chain)
    (hkey : v.resolves n key = true) : v.Resolving n (chain ++ [key]) := by
  intro x hx
  rcases List.mem_append.1 hx with hx | hx
  · exact hchain x hx
  · obtain rfl := List.mem_singleton.1 hx
    exact hkey

theorem Resolving.selectors {chain : List String} (hchain : v.Resolving n chain) :
    ∃ out, Gives (v.selectors n chain) (.ok out) := by
  induction chain with
  | nil => exact ⟨[], gives_pure.2 rfl⟩
  | cons key chain ih =>
    obtain ⟨here, hhere⟩ := resolves_eq_true.1 (hchain key List.mem_cons_self)
    obtain ⟨rest, hrest⟩ := ih fun x hx => hchain x (List.mem_cons_of_mem key hx)
    exact ⟨here ++ rest, gives_collect_ok_cons.2 ⟨here, rest, hhere, hrest, rfl⟩⟩

/-- A chain fails at the first selector that does not resolve. -/
theorem Resolving.selectors_error (henough : v.Enough n) {chain : List String} {key : String}
    (hchain : v.Resolving n chain) (hkey : ¬ v.resolves n key = true) :
    ∃ e, Gives (v.selectors n (chain ++ [key])) (.error e) := by
  induction chain with
  | nil =>
    obtain ⟨r, hr⟩ := henough.selector key
    cases r with
    | error e => exact ⟨e, gives_collect_cons.2 (.inl ⟨e, hr, rfl⟩)⟩
    | ok out => exact absurd (resolves_eq_true.2 ⟨out, hr⟩) hkey
  | cons x chain ih =>
    obtain ⟨here, hhere⟩ := resolves_eq_true.1 (hchain x List.mem_cons_self)
    obtain ⟨e, he⟩ := ih fun y hy => hchain y (List.mem_cons_of_mem x hy)
    exact ⟨e, gives_collect_cons.2 (.inr (.inl ⟨here, e, hhere, he, rfl⟩))⟩

/-! ## Definitions and items as steps -/

/-- A definition under a key is one step, or an error. -/
theorem runs_under (henough : v.Enough n) {chain : List String} (hchain : v.Resolving n chain)
    (key : String) (d : StyleDefinition) :
    v.Runs n (fun b => v.definition b (chain ++ [key]) d) (v.under n key [some d]) := by
  unfold under
  by_cases hkey : v.resolves n key = true
  · rw [if_pos hkey]
    exact runs_definition (hchain.snoc hkey)
  · rw [if_neg hkey]
    obtain ⟨e, he⟩ := hchain.selectors_error henough hkey
    have hfails : Gives (v.definition (n + 1) (chain ++ [key]) d) (.error e) :=
      gives_bind.2 (.inl ⟨e, he, rfl⟩)
    exact runs_error (v.rising_definition _ d) hfails

/-- Items, in a place where definitions take the steps that `wrap` makes of them. -/
theorem runs_items (henough : v.Enough n) {chain : List String}
    {wrap : List (Option StyleDefinition) → List (Option StyleDefinition)}
    (hwrap : wrap = id ∨ wrap = List.map fun _ => none)
    (h : ∀ d, v.Runs n (fun b => v.definition b chain d) (wrap [some d]))
    (items : List StyleItem) :
    v.Runs n (fun b => v.items b chain items) (wrap (v.itemSteps n items)) := by
  have hrising (out : List StyleItem) :
      Rising fun b => Walk.collect (part (v.definition b chain)) out :=
    fun b c hbc => below_collect (below_part (v.below_definition hbc chain)) out
  obtain ⟨r, hr⟩ : ∃ r, Gives (v.expansion n items) r :=
    exists_gives_collect fun item _ => henough.item item
  have hsteps : v.itemSteps n items = match r with
      | .ok out => out.flatMap itemStep
      | .error _ => [none] := by
    unfold itemSteps
    rw [hr]
    cases r <;> rfl
  rw [hsteps]
  cases r with
  | error e =>
    -- the items are cyclic, which is an error in either place
    have hfails : Gives (v.items n chain items) (.error e) := gives_bind.2 (.inl ⟨e, hr, rfl⟩)
    rcases hwrap with rfl | rfl <;> exact runs_error (v.rising_items chain items) hfails
  | ok out =>
    have hflat : wrap (out.flatMap itemStep) = out.flatMap fun i => wrap (itemStep i) := by
      rcases hwrap with rfl | rfl
      · rfl
      · exact List.map_flatMap
    show v.Runs n _ (wrap (out.flatMap itemStep))
    rw [hflat]
    refine runs_bind (v.rising_expansion items) hr hrising (runs_collect fun item _ => ?_)
    cases item with
    | definition d => exact h d
    | shortcut name =>
      -- a name that is left enters no definition
      have hnil : wrap [] = [] := by rcases hwrap with rfl | rfl <;> rfl
      show v.Runs n _ (wrap [])
      rw [hnil]
      exact runs_nil (c := 0) (rising_const _) (gives_pure.2 rfl)

theorem under_eq (key : String) :
    v.under n key = id ∨ v.under n key = List.map fun _ => none := by
  unfold under
  cases v.resolves n key
  · exact .inr rfl
  · exact .inl rfl

theorem runs_entry (henough : v.Enough n) {chain : List String} (hchain : v.Resolving n chain)
    (selectors : List String) : ∀ e : String × StyleValue,
      v.Runs n (fun b => v.entry b (v.definition b) chain selectors e) (v.entrySteps n e)
  | (_, .property _) => runs_nil (c := 0) (rising_const _) (gives_pure.2 rfl)
  | (key, .nested d) => runs_under henough hchain key d
  | (key, .items items) =>
    runs_items henough (under_eq key) (runs_under henough hchain key) items

/-- The entries of a definition take its steps. -/
theorem runs_entries (henough : v.Enough n) {chain : List String}
    (hchain : v.Resolving n chain) (selectors : List String) (d : StyleDefinition) :
    v.Runs n (fun b => Walk.collect (v.entry b (v.definition b) chain selectors)
      (Important.apply v.important d)) (v.steps n d) :=
  runs_collect fun e _ => runs_entry henough hchain selectors e

/-- The items of a call take its steps. -/
theorem runs_extractAll (henough : v.Enough n) (items : List StyleItem) :
    v.Runs n (fun b => v.extractAll b items) (v.callSteps n items) := by
  have hnil : v.Resolving n [] := fun _ h => absurd h List.not_mem_nil
  refine runs_collect fun item _ => ?_
  cases item with
  | definition d => exact runs_definition hnil
  | shortcut name => exact runs_items henough (.inl rfl) (fun d => runs_definition hnil) _

/-! ## Where the walk ends, and where it does not -/

/-- Under a chain that resolves, what a definition gives is what its entries give. -/
theorem exists_gives_definition_iff {chain : List String} (hchain : v.Resolving n chain) :
    ∃ selectors, ∀ r,
      (∀ b, Gives (v.definition (b + 1) chain d) r →
        Gives (Walk.collect (v.entry b (v.definition b) chain selectors)
          (Important.apply v.important d)) r) ∧
      (∀ b, Gives (Walk.collect (v.entry b (v.definition b) chain selectors)
          (Important.apply v.important d)) r →
        ∃ c, Gives (v.definition c chain d) r) := by
  obtain ⟨replaced, hreplaced⟩ := hchain.selectors
  refine ⟨Selector.normalize replaced v.host, fun r => ⟨fun b h => ?_, fun b h => ?_⟩⟩
  · rcases gives_bind.1 h with ⟨e, he, -⟩ | ⟨out, hout, hr⟩
    · cases (v.rising_selectors chain).unique he hreplaced
    · obtain rfl := Except.ok.inj ((v.rising_selectors chain).unique hout hreplaced)
      exact hr
  · -- the greater budget is enough for the chain and for the entries
    have hreplaced' := v.rising_selectors chain n (max n b) (Nat.le_max_left n b) _ hreplaced
    refine ⟨max n b + 1, gives_bind.2 (.inr ⟨replaced, hreplaced', ?_⟩)⟩
    refine below_collect (fun e => ?_) _ _ h
    exact v.below_entry (Nat.le_max_right n b) (v.below_definition (Nat.le_max_right n b)) _ _ e

/-- A definition that passes is read, under every chain that resolves. -/
theorem Passes.succeeds (henough : v.Enough n) (h : v.Passes n d) : v.Succeeds n d := by
  induction h with
  | mk hnone _ ih =>
    intro chain hchain
    obtain ⟨selectors, hiff⟩ := exists_gives_definition_iff hchain
    obtain ⟨b, out, hout⟩ := (runs_entries henough hchain selectors _).passes hnone ih
    obtain ⟨c, hc⟩ := (hiff _).2 b hout
    exact ⟨c, out, hc⟩

/-- A definition from which definitions cannot be entered without end settles. -/
theorem settles_of_acc (henough : v.Enough n) (h : Acc (fun d' d => v.Opens n d d') d) :
    v.Settles n d := by
  induction h with
  | intro d _ ih =>
    intro chain hchain
    obtain ⟨selectors, hiff⟩ := exists_gives_definition_iff hchain
    obtain ⟨b, r, hr, hclear⟩ := (runs_entries henough hchain selectors d).ends ih
    obtain ⟨c, hc⟩ := (hiff r).2 b hr
    exact ⟨c, r, hc, fun out hout => passes_iff.2 (hclear out hout)⟩

/-- If a definition leads to one that leads to itself, no budget is enough for it: it
enters a definition with the same property, for which one step less is left. -/
theorem stuck_of_loop (henough : v.Enough n) (b : Nat)
    (hreach : ReflTransGen (v.Opens n) d d') (hloop : TransGen (v.Opens n) d' d') :
    v.Stuck n b d := by
  induction b generalizing d with
  | zero => exact fun _ _ _ => not_gives_unfinished
  | succ b ih =>
    intro chain hchain r hr
    have hleads : TransGen (v.Opens n) d d' := TransGen.trans_right hreach hloop
    obtain ⟨next, hopens, hreach'⟩ := TransGen.head'_iff.1 hleads
    have hnext : v.Stuck n b next := ih hreach'
    obtain ⟨selectors, hiff⟩ := exists_gives_definition_iff hchain
    have hruns := runs_entries henough hchain selectors d
    exact hruns.stuck (fun _ h => h.succeeds henough) hopens hnext r ((hiff r).1 b hr)

/-- A call with items that loop is never read. -/
theorem not_gives_of_loops (henough : v.Enough n) {items : List StyleItem}
    (h : v.Loops n items) (b : Nat) (r : Except Error (List Extracted)) :
    ¬ Gives (v.extractAll b items) r := by
  obtain ⟨d, d', henters, hreach, hloop⟩ := h
  have hruns := runs_extractAll henough items
  have hstuck : v.Stuck n b d := stuck_of_loop henough b hreach hloop
  exact hruns.stuck (fun _ h => h.succeeds henough) henters hstuck r

/-- A call whose items do not lead on and on is read, or fails; if it is read, all its
steps can be taken. -/
theorem exists_gives_of_acc (henough : v.Enough n) {items : List StyleItem}
    (h : ∀ d, v.Enters n items d → Acc (fun d' d => v.Opens n d d') d) :
    ∃ b r, Gives (v.extractAll b items) r ∧
      ∀ out, r = .ok out → v.Clear n (v.callSteps n items) := by
  have hruns := runs_extractAll henough items
  exact hruns.ends fun d hd => settles_of_acc henough (h d hd)

end AtomicCss.Vocabulary
