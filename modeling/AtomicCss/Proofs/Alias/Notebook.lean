import AtomicCss.Proofs.Alias.Removal

/-!
# A memo is a plain table

A memo has the answers in cells and the places of the cells in an index. The cell of a
forgotten input is emptied and never used again; an input that comes back gets a new one.
None of this shows: whatever is done to rules, they reply and count like rules that write
their answers into a plain table.

- `Memo.Separate`: every input has a cell of its own, so that remembering or forgetting one
  input stays inside the cells and touches no other input.
- `Memo.answers`: a memo read as a plain table.
- `Operation`: a request, or an answer that is put into the memo from outside.
- `Notebook`: a rulebook with a plain table of answers.
- `AliasRules.memo_as_table`: rules are like the notebook, whatever is done to both.
- `AliasRules.exists_operations_of_expand`: all that an expansion does to rules is a sequence
  of operations.
-/

namespace AtomicCss

variable {α : Type}

/-- Where no key is repeated, a table is its keys with their values. -/
theorem Table.filterMap_keys {κ : Type} [DecidableEq κ] {t : Table κ α} (ht : (keys t).Nodup) :
    ((keys t).filterMap fun k => (get? t k).map (Prod.mk k)) = t := by
  have hentry : ∀ e ∈ t, (get? t e.1).map (Prod.mk e.1) = some e := by
    intro e he
    rw [(get?_eq_some_iff ht).2 he, Option.map_some]
  rw [keys, List.filterMap_map]
  exact (List.filterMap_congr hentry).trans List.filterMap_some

namespace Memo

variable {m : Memo α} {cells : List (Option α)} {places places' : List Nat}

/-! ## Cells -/

/-- Write to a cell, which has to be there. -/
def write? (cells : List (Option α)) (i : Nat) (cell : Option α) : Option (List (Option α)) :=
  if i < cells.length then some (cells.set i cell) else none

/-- Remember an answer. The cell of an input that has a place has to be there. -/
def set? (m : Memo α) (input : String) (answer : α) : Option (Memo α) :=
  match Table.get? m.index input with
  | some i => (write? m.cells i (some answer)).map fun cells => { m with cells }
  | none => some (m.set input answer)

/-- Empty cells one after the other, each of which has to be there. -/
def clear? (cells : List (Option α)) (places : List Nat) : Option (List (Option α)) :=
  places.foldlM (fun cells i => write? cells i none) cells

/-- The places of the inputs that satisfy `p`. -/
def placesOf (m : Memo α) (p : String → Bool) : List Nat :=
  (m.index.filter fun e => p e.1).map Prod.snd

/-- A memo in which every input has a cell of its own. Each place in the index is that of a
cell with an answer, and no input shares it. So all writes go to cells that are there, in
whatever order cells are emptied, and change what is remembered of the inputs they are meant
for only. -/
structure Separate (m : Memo α) : Prop where
  filled : ∀ e ∈ m.index, ∃ v, m.cells[e.2]? = some (some v)
  once : (Table.keys m.index).Nodup
  apart : ∀ e ∈ m.index, ∀ e' ∈ m.index, e.1 ≠ e'.1 → e.2 ≠ e'.2
  set_inside : ∀ x v, m.set? x v = some (m.set x v)
  evict_inside : ∀ p places, places.Perm (m.placesOf p) →
    clear? m.cells places = some (m.evict p).cells
  get?_set : ∀ x v y, (m.set x v).get? y = if x = y then some v else m.get? y
  get?_evict : ∀ p y, (m.evict p).get? y = if p y then none else m.get? y

theorem clear?_eq (h : ∀ i ∈ places, i < cells.length) :
    clear? cells places = some (clear cells places) := by
  induction places generalizing cells with
  | nil => rfl
  | cons i places ih =>
    obtain ⟨hi, hplaces⟩ := List.forall_mem_cons.1 h
    rw [clear?, List.foldlM_cons, write?, if_pos hi]
    refine ih fun j hj => ?_
    rw [List.length_set]
    exact hplaces j hj

/-- Cells can be emptied in any order. -/
theorem clear_perm (h : places.Perm places') : clear cells places = clear cells places' := by
  refine h.foldl_eq' (fun i _ j _ cells => ?_) cells
  by_cases hij : i = j
  · rw [hij]
  · exact List.set_comm none none hij

theorem Tidy.lt_of_mem_index (hm : m.Tidy) {e : String × Nat} (he : e ∈ m.index) :
    e.2 < m.cells.length :=
  hm.inside (hm.mem_index_iff.1 he)

theorem Tidy.separate (hm : m.Tidy) : m.Separate where
  filled := by
    intro e he
    obtain ⟨v, hv⟩ := hm.filled (List.mem_map_of_mem he)
    rw [Memo.get?, hm.mem_index_iff.1 he] at hv
    exact ⟨v, Option.join_eq_some_iff.1 hv⟩
  once := hm.once
  apart := by
    intro e he e' he' hne hplace
    exact hne (hm.apart (hm.mem_index_iff.1 he) (hplace ▸ hm.mem_index_iff.1 he'))
  set_inside := by
    intro x v
    cases hx : Table.get? m.index x with
    | none => rw [set?, hx]
    | some i => simp only [set?, Memo.set, hx, write?, if_pos (hm.inside hx), Option.map_some]
  evict_inside := by
    intro p places hplaces
    have hinside : ∀ i ∈ places, i < m.cells.length := by
      intro i hi
      obtain ⟨e, he, rfl⟩ := List.mem_map.1 (hplaces.mem_iff.1 hi)
      exact hm.lt_of_mem_index (List.mem_filter.1 he).1
    rw [clear?_eq hinside, clear_perm hplaces]
    rfl
  get?_set := hm.toWellPlaced.get?_set
  get?_evict := fun _ _ => hm.get?_evict

/-! ## Answers -/

/-- What a memo remembers, as a plain table. -/
def answers (m : Memo α) : Table String α :=
  m.inputs.filterMap fun x => (m.get? x).map (Prod.mk x)

section

variable (hm : m.Tidy)

include hm

theorem Tidy.keys_answers : Table.keys m.answers = m.inputs := by
  have hkey : ∀ x ∈ m.inputs, ((m.get? x).map (Prod.mk x)).map Prod.fst = some x := by
    intro x hx
    obtain ⟨v, hv⟩ := hm.filled hx
    rw [hv, Option.map_some, Option.map_some]
  rw [Table.keys, answers, List.map_filterMap]
  exact (List.filterMap_congr hkey).trans List.filterMap_some

theorem Tidy.length_answers : m.answers.length = m.size := by
  have hlength := congrArg List.length hm.keys_answers
  rwa [Table.keys, inputs, Table.keys, List.length_map, List.length_map] at hlength

/-- The table has the answer to each input. -/
theorem Tidy.get?_answers (x : String) : Table.get? m.answers x = m.get? x := by
  ext v
  rw [Table.get?_eq_some_iff (hm.keys_answers ▸ hm.once), answers, List.mem_filterMap]
  constructor
  · rintro ⟨y, -, hy⟩
    obtain ⟨w, hw, hentry⟩ := Option.map_eq_some_iff.1 hy
    obtain ⟨rfl, rfl⟩ := Prod.mk.inj hentry
    exact hw
  · intro hx
    exact ⟨x, mem_inputs_of_get? hx, by rw [hx, Option.map_some]⟩

omit hm in
/-- A memo reads as the table that has its inputs and their answers. -/
theorem answers_eq {t : Table String α} (hkeys : Table.keys t = m.inputs)
    (honce : m.inputs.Nodup) (hget : ∀ x, Table.get? t x = m.get? x) : m.answers = t := by
  rw [answers, ← hkeys]
  simp only [← hget]
  exact Table.filterMap_keys (hkeys ▸ honce)

theorem Tidy.answers_set (x : String) (v : α) :
    (m.set x v).answers = Table.insert m.answers x v := by
  refine answers_eq ?_ (hm.set x v).once fun y => ?_
  · rw [Table.keys_insert, hm.keys_answers, inputs_set]
  · rw [hm.toWellPlaced.get?_set]
    split
    · next hxy => rw [← hxy, Table.get?_insert_self]
    · next hxy => rw [Table.get?_insert_of_ne _ v (Ne.symm hxy), hm.get?_answers]

theorem Tidy.answers_evict (p : String → Bool) :
    (m.evict p).answers = Table.eraseIf p m.answers := by
  refine answers_eq ?_ hm.evict.once fun y => ?_
  · rw [Table.keys_eraseIf, hm.keys_answers, inputs_evict]
  · rw [Table.get?_eraseIf, hm.get?_answers, hm.get?_evict]

end

end Memo

/-! ## Operations -/

/-- What is done to rules: a request, or an answer is put into the memo. -/
inductive Operation (α : Type) where
  | ask (q : Request α)
  | seed (input : String) (answer : α)

namespace Operation

/-- The replies to operations one after the other, each with the number of inputs that are
remembered then, and what has become of the state. -/
def runAll {σ : Type} (step : Operation α → σ → Option (Reply α) × σ) (size : σ → Nat) :
    List (Operation α) → σ → List (Option (Reply α) × Nat) × σ
  | [], s => ([], s)
  | o :: os, s =>
    (((step o s).1, size (step o s).2) :: (runAll step size os (step o s).2).1,
      (runAll step size os (step o s).2).2)

/-- Does an operation overwrite what is remembered of an input, or make it forgotten? -/
def Changes (b : Rulebook α) (x : String) : Operation α → Prop
  | .ask q => b.drops x q = true
  | .seed y _ => y = x

section

variable {σ τ : Type} {step : Operation α → σ → Option (Reply α) × σ} {size : σ → Nat}
  {step' : Operation α → τ → Option (Reply α) × τ} {size' : τ → Nat} {I : σ → Prop}
  {view : σ → τ}

theorem runAll_append (os os' : List (Operation α)) (s : σ) :
    (runAll step size (os ++ os') s).2 =
      (runAll step size os' (runAll step size os s).2).2 := by
  induction os generalizing s with
  | nil => rfl
  | cons o os ih => exact ih (step o s).2

/-- What every operation preserves is preserved by all of them. -/
theorem runAll_preserves (hstep : ∀ o s, I s → I (step o s).2) (os : List (Operation α))
    {s : σ} (hs : I s) : I (runAll step size os s).2 := by
  induction os generalizing s with
  | nil => exact hs
  | cons o os ih => exact ih (hstep o s hs)

/-- Where every operation does the same to a state and to its view, all of them do. -/
theorem runAll_view (hstep : ∀ o s, I s → I (step o s).2)
    (hview : ∀ o s, I s → step' o (view s) = ((step o s).1, view (step o s).2))
    (hsize : ∀ s, I s → size' (view s) = size s) (os : List (Operation α)) {s : σ} (hs : I s) :
    runAll step' size' os (view s) =
      ((runAll step size os s).1, view (runAll step size os s).2) := by
  induction os generalizing s with
  | nil => rfl
  | cons o os ih =>
    have hs' : I (step o s).2 := hstep o s hs
    simp only [runAll, hview o s hs, hsize _ hs', ih hs']

end

end Operation

/-- Rules that write their answers into a plain table. -/
structure Notebook (α : Type) where
  book : Rulebook α := {}
  answers : Table String α := []

namespace Notebook

/-- What a notebook replies to an operation, and what becomes of it. Only an input that is not
in the table is looked up in the rulebook, and a change of the rules erases the inputs that
the old rule of its key answers. -/
def operate : Operation α → Notebook α → Option (Reply α) × Notebook α
  | .ask (.resolve x), n =>
    match Table.get? n.answers x with
    | some v => (some (.answered (some v)), n)
    | none =>
      match n.book.answer? x with
      | some v => (some (.answered (some v)), { n with answers := Table.insert n.answers x v })
      | none => (some (.answered none), n)
  | .ask q, n =>
    (some (n.book.perform q).1,
      { book := (n.book.perform q).2
        answers := Table.eraseIf (fun x => n.book.drops x q) n.answers })
  | .seed x v, n => (none, { n with answers := Table.insert n.answers x v })

/-- What a notebook replies to operations one after the other. -/
def operateAll : List (Operation α) → Notebook α → List (Option (Reply α) × Nat) × Notebook α :=
  Operation.runAll operate fun n => n.answers.length

theorem operate_ask {q : Request α} (hq : ∀ x, q ≠ .resolve x) (n : Notebook α) :
    n.operate (.ask q) = (some (n.book.perform q).1,
      { book := (n.book.perform q).2
        answers := Table.eraseIf (fun x => n.book.drops x q) n.answers }) := by
  cases q with
  | resolve x => exact absurd rfl (hq x)
  | _ => rfl

end Notebook

namespace AliasRules

/-- What rules with a memo reply to an operation, and what becomes of them. -/
def operate : Operation α → AliasRules α → Option (Reply α) × AliasRules α
  | .ask q, r => (some (r.perform q).1, (r.perform q).2)
  | .seed x v, r => (none, r.remember x v)

/-- What rules with a memo reply to operations one after the other. -/
def operateAll :
    List (Operation α) → AliasRules α → List (Option (Reply α) × Nat) × AliasRules α :=
  Operation.runAll operate fun r => r.memo.size

/-- Rules with a memo as a notebook. -/
def notebook (r : AliasRules α) : Notebook α := ⟨r.rulebook, r.memo.answers⟩

variable {r : AliasRules α} {x : String} {v : α}

theorem Filed.remember (h : r.Filed) (x : String) (v : α) : (r.remember x v).Filed :=
  ⟨h.statics, h.patterns, h.tidy.set x v⟩

theorem Filed.operate (h : r.Filed) (o : Operation α) : (r.operate o).2.Filed := by
  cases o with
  | ask q => exact h.perform q
  | seed x v => exact h.remember x v

theorem Filed.notebook_remember (h : r.Filed) (x : String) (v : α) :
    (r.remember x v).notebook =
      { r.notebook with answers := Table.insert r.notebook.answers x v } :=
  congrArg (Notebook.mk r.rulebook) (h.tidy.answers_set x v)

theorem Filed.notebook_resolve (h : r.Filed) (x : String) :
    r.notebook.operate (.ask (.resolve x)) =
      (some (.answered (r.resolve x).1), (r.resolve x).2.notebook) := by
  have hget : Table.get? r.notebook.answers x = r.memo.get? x := h.tidy.get?_answers x
  have hanswer : r.notebook.book.answer? x = r.lookup? x := (r.lookup?_eq x).symm
  rw [Notebook.operate, resolve, hget, hanswer]
  cases r.memo.get? x with
  | some v => rfl
  | none =>
    cases r.lookup? x with
    | none => rfl
    | some v => exact congrArg (Prod.mk _) (h.notebook_remember x v).symm

theorem Filed.notebook_perform (h : r.Filed) {q : Request α} (hq : ∀ x, q ≠ .resolve x) :
    r.notebook.operate (.ask q) = (some (r.perform q).1, (r.perform q).2.notebook) := by
  have hbook : r.notebook.book.perform q = ((r.perform q).1, (r.perform q).2.rulebook) :=
    h.perform_eq hq
  have hanswers : (r.perform q).2.memo.answers =
      Table.eraseIf (fun x => r.notebook.book.drops x q) r.notebook.answers := by
    rw [h.memo_perform hq, h.tidy.answers_evict]
    rfl
  rw [Notebook.operate_ask hq, hbook, ← hanswers]
  rfl

/-- An operation does the same to rules and to their notebook. -/
theorem Filed.notebook_operate (h : r.Filed) (o : Operation α) :
    r.notebook.operate o = ((r.operate o).1, (r.operate o).2.notebook) := by
  rcases o with q | ⟨x, v⟩
  · cases q with
    | resolve x => exact h.notebook_resolve x
    | _ => exact h.notebook_perform (by nofun)
  · exact congrArg (Prod.mk _) (h.notebook_remember x v).symm

theorem operateAll_append (os os' : List (Operation α)) (r : AliasRules α) :
    (r.operateAll (os ++ os')).2 = ((r.operateAll os).2.operateAll os').2 :=
  Operation.runAll_append os os' r

theorem Filed.operateAll (h : r.Filed) (os : List (Operation α)) : (r.operateAll os).2.Filed :=
  Operation.runAll_preserves (fun o _ h => h.operate o) os h

theorem Filed.notebook_operateAll (h : r.Filed) (os : List (Operation α)) :
    r.notebook.operateAll os = ((r.operateAll os).1, (r.operateAll os).2.notebook) :=
  Operation.runAll_view (fun o _ h => h.operate o) (fun o _ h => h.notebook_operate o)
    (fun _ h => h.tidy.length_answers) os h

/-! ## What stays remembered -/

/-- None of these operations, done to the rules one after the other, overwrites what is
remembered of the input or makes it forgotten. -/
def Keeps (r : AliasRules α) (x : String) (os : List (Operation α)) : Prop :=
  ∀ (i : Nat) (o : Operation α), os[i]? = some o →
    ¬ o.Changes (r.operateAll (os.take i)).2.rulebook x

/-- An operation that neither overwrites nor forgets an answer keeps it. -/
theorem Filed.get?_operate (h : r.Filed) {o : Operation α} (ho : ¬ o.Changes r.rulebook x)
    (hx : r.memo.get? x = some v) : (r.operate o).2.memo.get? x = some v := by
  rcases o with q | ⟨y, w⟩
  · have hdrops : r.rulebook.drops x q = false := Bool.eq_false_iff.2 ho
    rw [AliasRules.operate, h.get?_perform, hx]
    cases q with
    | resolve y => simp [Rulebook.recallAfter]
    | _ => exact if_neg (Bool.eq_false_iff.1 hdrops)
  · rw [← hx]
    exact Memo.get?_set_of_ne h.tidy.toWellPlaced w fun hxy => ho hxy.symm

theorem Filed.get?_operateAll (h : r.Filed) {os : List (Operation α)} (hos : r.Keeps x os)
    (hx : r.memo.get? x = some v) : (r.operateAll os).2.memo.get? x = some v := by
  induction os generalizing r with
  | nil => exact hx
  | cons o os ih =>
    -- the operations behind the first one start where that one has ended
    refine ih (h.operate o) (fun i o' hi => ?_) (h.get?_operate (hos 0 o rfl) hx)
    exact hos (i + 1) o' hi

/-- Whatever is done to rules, they reply, and count what they remember, like rules that write
their answers into a plain table, and what they remember is this table. Every input has a
cell of its own in the memo. And an answer that is put into the memo is the answer to its
input until another one is put there or a change of the rules makes the input forgotten. -/
theorem memo_as_table (os : List (Operation α)) :
    (operateAll os {}).1 = (Notebook.operateAll os {}).1 ∧
    (operateAll os {}).2.notebook = (Notebook.operateAll os {}).2 ∧
    (Table.keys (Notebook.operateAll os {}).2.answers).Nodup ∧
    (operateAll os {}).2.memo.Separate ∧
    ∀ x v later, (operateAll (os ++ [.seed x v]) {}).2.Keeps x later →
      ((operateAll (os ++ [.seed x v] ++ later) {}).2.resolve x).1 = some v := by
  have hfiled : (operateAll os ({} : AliasRules α)).2.Filed := filed_empty.operateAll os
  have hrun : Notebook.operateAll os {} =
      ((operateAll os ({} : AliasRules α)).1, (operateAll os ({} : AliasRules α)).2.notebook) :=
    filed_empty.notebook_operateAll os
  have hkeys : Table.keys (operateAll os ({} : AliasRules α)).2.notebook.answers =
      (operateAll os {}).2.memo.inputs := hfiled.tidy.keys_answers
  refine ⟨by rw [hrun], by rw [hrun], ?_, hfiled.tidy.separate, fun x v later hlater => ?_⟩
  · rw [hrun, hkeys]
    exact hfiled.tidy.once
  · have hseed : (operateAll (os ++ [.seed x v]) {}).2 = (operateAll os {}).2.remember x v :=
      operateAll_append os [.seed x v] {}
    have hget := Memo.get?_set_self hfiled.tidy.toWellPlaced x v
    rw [hseed] at hlater
    rw [operateAll_append, hseed, fst_resolve,
      (hfiled.remember x v).get?_operateAll hlater hget, Option.some_or]

/-- Two rules, and answers of both, of which those of the second are forgotten together. -/
def sizesForgotten : List (Operation Nat) :=
  [.ask (.addStatic ⟨"hover", "hover", 1⟩),
    .ask (.addPattern ⟨"size", "^size-[89]$", fun x =>
      if x = "size-8" ∨ x = "size-9" then some x.length else none⟩),
    .ask (.resolve "hover"), .ask (.resolve "size-8"), .ask (.resolve "size-9"),
    .ask (.removePattern "size")]

/-- The other rule is redefined, which makes its input forgotten and then answered anew. -/
def hoverRedefined : List (Operation Nat) :=
  [.ask (.resolve "size-9"), .ask (.addStatic ⟨"hover", "hover", 2⟩), .ask (.resolve "hover")]

/-- An answer from outside stays while other inputs are forgotten and come back. -/
theorem memo_as_table_seeded :
    (operateAll (sizesForgotten ++ [.seed "size-9" 90]) {}).2.Keeps "size-9" hoverRedefined ∧
    ((operateAll (sizesForgotten ++ [.seed "size-9" 90] ++ hoverRedefined) {}).2.resolve
      "size-9").1 = some 90 ∧
    (operateAll (sizesForgotten ++ [.seed "size-9" 90] ++ hoverRedefined) {}).2.memo =
      ⟨[("size-9", 3), ("hover", 4)], [none, none, none, some 90, some 2]⟩ := by
  have hkeeps :
      (operateAll (sizesForgotten ++ [.seed "size-9" 90]) {}).2.Keeps "size-9" hoverRedefined := by
    rintro (_ | _ | _ | i) o ho <;> cases ho <;> exact Bool.eq_false_iff.1 (by decide)
  obtain ⟨-, -, -, -, hseeded⟩ := memo_as_table sizesForgotten
  exact ⟨hkeeps, hseeded "size-9" 90 hoverRedefined hkeeps, by decide⟩

/-! ## Expansions -/

/-- Whatever the expansion of a selector or of a shortcut does to rules, operations can do. So the
memo is a plain table for expansions as well. -/
theorem exists_operations_of_expand {kind : AliasKind} {b : Nat} {input : String}
    {r r' : AliasRules (List kind.Element)} {res : Except Error kind.Expansion}
    (hrun : kind.expand b input r = some (res, r')) : ∃ os, r' = (r.operateAll os).2 := by
  obtain ⟨o, hexpand, -⟩ := AliasKind.expand_eq_some.1 hrun
  refine (ensures_expand (I := fun r' => ∃ os, r' = (r.operateAll os).2) ?_ b [] input
    r o r' ⟨[], rfl⟩ hexpand).1
  rintro _ x v ⟨os, rfl⟩
  refine ⟨os ++ [.seed x v], ?_⟩
  rw [operateAll_append]
  rfl

end AliasRules

end AtomicCss
