import AtomicCss.Alias.Rules
import AtomicCss.Proofs.Reading
import Mathlib.Data.List.Nodup
import Mathlib.Data.List.Perm.Subperm
import Mathlib.Logic.Relation

/-!
# Unfolding aliases

The meaning of an alias is its expansion by the rules alone, with nothing
remembered: the elements of its answer are unfolded from left to right, and a name
that is met inside its own unfolding is a cycle.

- `AliasRules.unfold`: the unfolding of an input inside the unfoldings of `path`.
- `AliasRules.Mentions`: an answer has an element that is the name of another input.
- `notMem_path_of_unfold`: what succeeds meets no name of its path, however deep.
- `unfold_ok_of_apart`: so a success does not depend on the path, as long as
  nothing in the path can be reached.
- `settled_of_unfold`: what is given in the end has no answer any more.
- `exists_unfold_of_finite`: what leads to finitely many inputs only has an unfolding that
  ends.
-/

namespace AtomicCss.AliasRules

open Reading Relation

variable {α : Type}

section Definitions

variable (kind : AliasKind) (name? : α → Option String) (lookup? : String → Option (List α))

/-- An element stands for the unfolding of its name, or for itself. -/
def unfoldElement (unfolding : String → Reading (Option (List α))) (a : α) :
    Reading (List α) :=
  match name? a with
  | none => pure [a]
  | some name => do return (← unfolding name).getD [a]

/-- The unfolding of an input. `path` holds the names that are being unfolded,
outermost first. -/
def unfold : (budget : Nat) → (path : List String) → (input : String) →
    Reading (Option (List α))
  | 0, _, _ => Walk.unfinished
  | budget + 1, path, input =>
    if input ∈ path then throw (.cyclic kind (path ++ [input]))
    else
      match lookup? input with
      | none => pure none
      | some answer => do
        return some (← Walk.collect (unfoldElement name? (unfold budget (path ++ [input]))) answer)

/-- The answer to `x` has an element with the name `y`. -/
def Mentions (x y : String) : Prop :=
  ∃ answer, lookup? x = some answer ∧ ∃ a ∈ answer, name? a = some y

/-- The unfolding of an input with nothing around it ends, with these elements. -/
def Unfolds (input : String) (full : List α) : Prop :=
  ∃ budget, Gives (unfold kind name? lookup? budget [] input) (.ok (some full))

end Definitions

variable {kind : AliasKind} {name? : α → Option String} {lookup? : String → Option (List α)}
  {b : Nat} {path : List String} {input : String}

/-! ## One step of an unfolding -/

theorem gives_unfoldElement {unfolding : String → Reading (Option (List α))} {a : α}
    {r : Except Error (List α)} :
    Gives (unfoldElement name? unfolding a) r ↔
      (name? a = none ∧ r = .ok [a]) ∨
      ∃ name answer, name? a = some name ∧ Gives (unfolding name) answer ∧
        r = answer.map fun full => full.getD [a] := by
  unfold unfoldElement
  cases name? a with
  | none => simp [gives_pure]
  | some name =>
    show Gives (do return (← unfolding name).getD [a]) r ↔ _
    rw [gives_bind]
    constructor
    · rintro (⟨e, he, rfl⟩ | ⟨full, hfull, h⟩)
      · exact .inr ⟨name, _, rfl, he, rfl⟩
      · obtain rfl := gives_pure.1 h
        exact .inr ⟨name, _, rfl, hfull, rfl⟩
    · rintro (⟨h, -⟩ | ⟨name', answer, heq, hanswer, rfl⟩)
      · cases h
      · obtain rfl := Option.some.inj heq
        cases answer with
        | error e => exact .inl ⟨e, hanswer, rfl⟩
        | ok full => exact .inr ⟨full, hanswer, gives_pure.2 rfl⟩

/-- The three things that an unfolding can do. -/
theorem gives_unfold_succ {r : Except Error (Option (List α))} :
    Gives (unfold kind name? lookup? (b + 1) path input) r ↔
      (input ∈ path ∧ r = .error (.cyclic kind (path ++ [input]))) ∨
      (input ∉ path ∧ lookup? input = none ∧ r = .ok none) ∨
      (input ∉ path ∧ ∃ answer full, lookup? input = some answer ∧
        Gives (Walk.collect (unfoldElement name?
          (unfold kind name? lookup? b (path ++ [input]))) answer) full ∧
        r = full.map some) := by
  rw [unfold]
  by_cases hmem : input ∈ path
  · simp [hmem, gives_throw]
  rw [if_neg hmem]
  cases lookup? input with
  | none => simp [hmem, gives_pure]
  | some answer =>
    show Gives (do return some (← Walk.collect _ answer)) r ↔ _
    rw [gives_bind]
    constructor
    · rintro (⟨e, he, rfl⟩ | ⟨full, hfull, h⟩)
      · exact .inr (.inr ⟨hmem, answer, _, rfl, he, rfl⟩)
      · obtain rfl := gives_pure.1 h
        exact .inr (.inr ⟨hmem, answer, _, rfl, hfull, rfl⟩)
    · rintro (⟨h, -⟩ | ⟨-, h, -⟩ | ⟨-, _, full, heq, hfull, rfl⟩)
      · exact absurd h hmem
      · cases h
      · obtain rfl := Option.some.inj heq
        cases full with
        | error e => exact .inl ⟨e, hfull, rfl⟩
        | ok full => exact .inr ⟨full, hfull, gives_pure.2 rfl⟩

theorem not_gives_unfold_zero {r : Except Error (Option (List α))} :
    ¬ Gives (unfold kind name? lookup? 0 path input) r :=
  not_gives_unfinished

theorem gives_unfoldElement_ok {unfolding : String → Reading (Option (List α))} {a : α}
    {here : List α} :
    Gives (unfoldElement name? unfolding a) (.ok here) ↔
      (name? a = none ∧ here = [a]) ∨
      ∃ name inner, name? a = some name ∧ Gives (unfolding name) (.ok inner) ∧
        here = inner.getD [a] := by
  rw [gives_unfoldElement]
  constructor
  · rintro (⟨hname, heq⟩ | ⟨name, _ | inner, hname, hinner, heq⟩)
    · exact .inl ⟨hname, Except.ok.inj heq⟩
    · cases heq
    · exact .inr ⟨name, inner, hname, hinner, Except.ok.inj heq⟩
  · rintro (⟨hname, rfl⟩ | ⟨name, inner, hname, hinner, rfl⟩)
    · exact .inl ⟨hname, rfl⟩
    · exact .inr ⟨name, _, hname, hinner, rfl⟩

theorem gives_unfold_ok_none :
    Gives (unfold kind name? lookup? (b + 1) path input) (.ok none) ↔
      input ∉ path ∧ lookup? input = none := by
  rw [gives_unfold_succ]
  constructor
  · rintro (⟨-, heq⟩ | ⟨hmem, hnone, -⟩ | ⟨-, _, _ | _, -, -, heq⟩)
    · cases heq
    · exact ⟨hmem, hnone⟩
    · cases heq
    · cases heq
  · exact fun ⟨hmem, hnone⟩ => .inr (.inl ⟨hmem, hnone, rfl⟩)

theorem gives_unfold_ok_some {full : List α} :
    Gives (unfold kind name? lookup? (b + 1) path input) (.ok (some full)) ↔
      input ∉ path ∧ ∃ answer, lookup? input = some answer ∧
        Gives (Walk.collect (unfoldElement name?
          (unfold kind name? lookup? b (path ++ [input]))) answer) (.ok full) := by
  rw [gives_unfold_succ]
  constructor
  · rintro (⟨-, heq⟩ | ⟨-, -, heq⟩ | ⟨hmem, answer, _ | full', hl, hfull, heq⟩)
    · cases heq
    · cases heq
    · cases heq
    · obtain rfl : full = full' := Option.some.inj (Except.ok.inj heq)
      exact ⟨hmem, answer, hl, hfull⟩
  · exact fun ⟨hmem, answer, hl, hfull⟩ => .inr (.inr ⟨hmem, answer, _, hl, hfull, rfl⟩)

theorem notMem_path_of_unfold_ok {full : Option (List α)}
    (h : Gives (unfold kind name? lookup? (b + 1) path input) (.ok full)) : input ∉ path := by
  cases full with
  | none => exact (gives_unfold_ok_none.1 h).1
  | some full => exact (gives_unfold_ok_some.1 h).1

/-- An unfolding that succeeds has unfolded every name that is mentioned. -/
theorem exists_unfold_of_mentions {full : Option (List α)} {y : String}
    (h : Gives (unfold kind name? lookup? (b + 1) path input) (.ok full))
    (hy : Mentions name? lookup? input y) :
    ∃ inner, Gives (unfold kind name? lookup? b (path ++ [input]) y) (.ok inner) := by
  obtain ⟨answer, hanswer, a, ha, hname⟩ := hy
  cases full with
  | none =>
    have hnone := (gives_unfold_ok_none.1 h).2
    rw [hanswer] at hnone
    cases hnone
  | some full =>
    obtain ⟨-, answer', hl, hfull⟩ := gives_unfold_ok_some.1 h
    obtain rfl : answer = answer' := Option.some.inj (hanswer.symm.trans hl)
    obtain ⟨here, hhere⟩ := hfull.of_collect_ok a ha
    rcases gives_unfoldElement_ok.1 hhere with ⟨hnone, -⟩ | ⟨name, inner, hsome, hinner, -⟩
    · rw [hname] at hnone
      cases hnone
    · obtain rfl : y = name := Option.some.inj (hname.symm.trans hsome)
      exact ⟨inner, hinner⟩

/-! ## More budget -/

theorem below_unfold : ∀ {b c : Nat} (path : List String) (input : String), b ≤ c →
    Below (unfold kind name? lookup? b path input) (unfold kind name? lookup? c path input)
  | 0, _, _, _, _ => below_unfinished _
  | b + 1, c + 1, path, input, hbc => by
    intro r h
    rw [gives_unfold_succ] at h ⊢
    refine h.imp_right (Or.imp_right fun ⟨hmem, answer, full, hl, hfull, hr⟩ => ?_)
    refine ⟨hmem, answer, full, hl, below_collect (fun a => ?_) _ _ hfull, hr⟩
    intro r h
    rw [gives_unfoldElement] at h ⊢
    refine h.imp_right fun ⟨name, inner, hname, hinner, hr⟩ => ⟨name, inner, hname, ?_, hr⟩
    exact below_unfold _ _ (Nat.le_of_succ_le_succ hbc) _ hinner

theorem rising_unfold (path : List String) (input : String) :
    Rising fun b => unfold kind name? lookup? b path input :=
  fun _ _ hbc => below_unfold path input hbc

theorem Unfolds.unique {full full' : List α} (h : Unfolds kind name? lookup? input full)
    (h' : Unfolds kind name? lookup? input full') : full = full' := by
  obtain ⟨b, hb⟩ := h
  obtain ⟨c, hc⟩ := h'
  exact Option.some.inj (Except.ok.inj ((rising_unfold [] input).unique hb hc))

/-! ## What a success says about names -/

/-- An unfolding that succeeds meets no name of its path, however deep. -/
theorem notMem_path_of_unfold {full : Option (List α)} {y : String}
    (h : Gives (unfold kind name? lookup? b path input) (.ok full))
    (hy : ReflTransGen (Mentions name? lookup?) input y) : y ∉ path := by
  induction b generalizing path input full with
  | zero => exact absurd h not_gives_unfold_zero
  | succ b ih =>
    rcases hy.cases_head with rfl | ⟨z, hz, hzy⟩
    · exact notMem_path_of_unfold_ok h
    · -- the path only grows, so what is met further below is not in it either
      obtain ⟨inner, hinner⟩ := exists_unfold_of_mentions h hz
      exact fun hmem => ih hinner hzy (List.mem_append_left _ hmem)

/-- An input whose unfolding succeeds does not lead back to itself. -/
theorem not_transGen_self_of_unfold {full : Option (List α)}
    (h : Gives (unfold kind name? lookup? b path input) (.ok full)) :
    ¬ TransGen (Mentions name? lookup?) input input := by
  intro hcycle
  obtain ⟨z, hz, hback⟩ := TransGen.head'_iff.1 hcycle
  cases b with
  | zero => exact not_gives_unfold_zero h
  | succ b =>
    -- what the input mentions is unfolded with the input in its path
    obtain ⟨inner, hinner⟩ := exists_unfold_of_mentions h hz
    exact notMem_path_of_unfold hinner hback (List.mem_append_right _ List.mem_cons_self)

/-- A success does not depend on the path, as long as nothing in the path can be
reached. -/
theorem unfold_ok_of_apart {full : Option (List α)} {other : List String}
    (h : Gives (unfold kind name? lookup? b path input) (.ok full))
    (hother : ∀ y ∈ other, ¬ ReflTransGen (Mentions name? lookup?) input y) :
    Gives (unfold kind name? lookup? b other input) (.ok full) := by
  induction b generalizing path input full other with
  | zero => exact absurd h not_gives_unfold_zero
  | succ b ih =>
    have hout : input ∉ other := fun hmem => hother input hmem .refl
    have hself := not_transGen_self_of_unfold h
    cases full with
    | none => exact gives_unfold_ok_none.2 ⟨hout, (gives_unfold_ok_none.1 h).2⟩
    | some full =>
      obtain ⟨-, answer, hl, hfull⟩ := gives_unfold_ok_some.1 h
      refine gives_unfold_ok_some.2 ⟨hout, answer, hl, hfull.collect_ok_congr ?_⟩
      intro a ha here hhere
      rw [gives_unfoldElement_ok] at hhere ⊢
      refine hhere.imp_right fun ⟨name, inner, hname, hinner, heq⟩ =>
        ⟨name, inner, hname, ih hinner fun y hy hreach => ?_, heq⟩
      -- what is in the longer path is reached neither from the name nor from the input
      have hmentions : Mentions name? lookup? input name := ⟨answer, hl, a, ha, hname⟩
      rcases List.mem_append.1 hy with hy | hy
      · exact hother y hy (.head hmentions hreach)
      · obtain rfl := List.mem_singleton.1 hy
        exact hself (.head' hmentions hreach)

theorem Unfolds.of_unfold {full : List α}
    (h : Gives (unfold kind name? lookup? b path input) (.ok (some full))) :
    Unfolds kind name? lookup? input full :=
  ⟨b, unfold_ok_of_apart h fun _ hy => absurd hy List.not_mem_nil⟩

/-- What is given in the end has no answer any more, and it took budget to find
out. -/
theorem settled_of_unfold {full : List α} {a : α} {name : String}
    (h : Gives (unfold kind name? lookup? (b + 1) path input) (.ok (some full)))
    (ha : a ∈ full) (hname : name? a = some name) : lookup? name = none ∧ 0 < b := by
  induction b generalizing path input full with
  | zero =>
    -- there is no budget for names, so all elements are without one
    obtain ⟨-, answer, -, hfull⟩ := gives_unfold_ok_some.1 h
    obtain ⟨a', -, here, hhere, ha⟩ := exists_of_mem_collect_ok hfull ha
    rcases gives_unfoldElement_ok.1 hhere with ⟨hnone, rfl⟩ | ⟨_, _, -, hinner, -⟩
    · obtain rfl := List.mem_singleton.1 ha
      rw [hname] at hnone
      cases hnone
    · exact absurd hinner not_gives_unfold_zero
  | succ b ih =>
    obtain ⟨-, answer, -, hfull⟩ := gives_unfold_ok_some.1 h
    obtain ⟨a', -, here, hhere, ha⟩ := exists_of_mem_collect_ok hfull ha
    refine ⟨?_, Nat.succ_pos b⟩
    rcases gives_unfoldElement_ok.1 hhere with ⟨hnone, rfl⟩ | ⟨y, inner, hy, hinner, rfl⟩
    · obtain rfl := List.mem_singleton.1 ha
      rw [hname] at hnone
      cases hnone
    · cases inner with
      | some inner => exact (ih hinner ha).1
      | none =>
        obtain rfl := List.mem_singleton.1 ha
        obtain rfl : name = y := Option.some.inj (hname.symm.trans hy)
        exact (gives_unfold_ok_none.1 hinner).2

theorem Unfolds.settled {full : List α} (h : Unfolds kind name? lookup? input full) {a : α}
    {name : String} (ha : a ∈ full) (hname : name? a = some name) : lookup? name = none := by
  obtain ⟨_ | b, hb⟩ := h
  · exact absurd hb not_gives_unfold_zero
  · exact (settled_of_unfold hb ha hname).1

/-- What is given in the end stands in an answer of the rules. -/
theorem exists_answer_of_unfold {full : List α} {a : α}
    (h : Gives (unfold kind name? lookup? b path input) (.ok (some full))) (ha : a ∈ full) :
    ∃ x answer, lookup? x = some answer ∧ a ∈ answer := by
  induction b generalizing path input full with
  | zero => exact absurd h not_gives_unfold_zero
  | succ b ih =>
    obtain ⟨-, answer, hanswer, hfull⟩ := gives_unfold_ok_some.1 h
    obtain ⟨a', ha', here, hhere, ha⟩ := exists_of_mem_collect_ok hfull ha
    rcases gives_unfoldElement_ok.1 hhere with ⟨-, rfl⟩ | ⟨y, inner, -, hinner, rfl⟩
    · obtain rfl := List.mem_singleton.1 ha
      exact ⟨input, answer, hanswer, ha'⟩
    · cases inner with
      | some inner => exact ih hinner ha
      | none =>
        obtain rfl := List.mem_singleton.1 ha
        exact ⟨input, answer, hanswer, ha'⟩

/-- An unfolding that fails has met its path, or what it mentions has failed. -/
theorem unfold_error_cases {e : Error}
    (h : Gives (unfold kind name? lookup? (b + 1) path input) (.error e)) :
    (input ∈ path ∧ e = .cyclic kind (path ++ [input])) ∨
      (input ∉ path ∧ ∃ y, Mentions name? lookup? input y ∧
        Gives (unfold kind name? lookup? b (path ++ [input]) y) (.error e)) := by
  rcases gives_unfold_succ.1 h with
    ⟨hmem, heq⟩ | ⟨-, -, heq⟩ | ⟨hmem, answer, full, hanswer, hfull, heq⟩
  · exact .inl ⟨hmem, Except.error.inj heq⟩
  · cases heq
  · cases full with
    | ok full => cases heq
    | error e' =>
      obtain rfl := Except.error.inj heq
      obtain ⟨a, hmemAnswer, ha⟩ := exists_of_collect_error hfull
      rcases gives_unfoldElement.1 ha with ⟨-, heq⟩ | ⟨y, inner, hname, hinner, heq⟩
      · cases heq
      · cases inner with
        | ok inner => cases heq
        | error e'' =>
          obtain rfl := Except.error.inj heq
          exact .inr ⟨hmem, y, ⟨answer, hanswer, a, hmemAnswer, hname⟩, hinner⟩

/-- The only error of an unfolding is a cycle. -/
theorem exists_chain_of_unfold_error {e : Error}
    (h : Gives (unfold kind name? lookup? b path input) (.error e)) :
    ∃ chain, e = .cyclic kind chain := by
  induction b generalizing path input with
  | zero => exact absurd h not_gives_unfold_zero
  | succ b ih =>
    rcases unfold_error_cases h with ⟨-, heq⟩ | ⟨-, y, -, hy⟩
    · exact ⟨_, heq⟩
    · exact ih hy

/-! ## Finitely many inputs -/

/-- If an input leads to no other inputs with an answer than those of a list, its unfolding
ends: the path can hold each of them once. -/
theorem exists_unfold_of_finite (inputs : List String)
    (hinputs : ∀ x, ReflTransGen (Mentions name? lookup?) input x → lookup? x ≠ none → x ∈ inputs)
    (hnodup : path.Nodup) (hpath : path ⊆ inputs) (hb : inputs.length < b + path.length) :
    ∃ r, Gives (unfold kind name? lookup? b path input) r := by
  induction b generalizing path input with
  | zero =>
    -- the path would hold more inputs than there are
    have hlength := (hnodup.subperm hpath).length_le
    omega
  | succ b ih =>
    by_cases hmem : input ∈ path
    · exact ⟨_, gives_unfold_succ.2 (.inl ⟨hmem, rfl⟩)⟩
    cases hl : lookup? input with
    | none => exact ⟨_, gives_unfold_ok_none.2 ⟨hmem, hl⟩⟩
    | some answer =>
      have hinput : input ∈ inputs := hinputs input .refl (by simp [hl])
      have hinner (name : String) (hname : Mentions name? lookup? input name) :
          ∃ r, Gives (unfold kind name? lookup? b (path ++ [input]) name) r := by
        refine ih (fun x hx => hinputs x (hx.head hname)) ?_ ?_ (by simp; omega)
        · rw [← List.concat_eq_append]
          exact List.Nodup.concat hmem hnodup
        · exact List.append_subset.2 ⟨hpath, by simpa using hinput⟩
      obtain ⟨full, hfull⟩ : ∃ full, Gives (Walk.collect (unfoldElement name?
          (unfold kind name? lookup? b (path ++ [input]))) answer) full := by
        refine exists_gives_collect fun a ha => ?_
        cases hname : name? a with
        | none => exact ⟨_, gives_unfoldElement.2 (.inl ⟨hname, rfl⟩)⟩
        | some name =>
          obtain ⟨r, hr⟩ := hinner name ⟨answer, hl, a, ha, hname⟩
          exact ⟨_, gives_unfoldElement.2 (.inr ⟨name, r, hname, hr, rfl⟩)⟩
      exact ⟨_, gives_unfold_succ.2 (.inr (.inr ⟨hmem, answer, full, hl, hfull, rfl⟩))⟩

section

variable {r : AliasRules (List α)}

/-- Rules without patterns answer the inputs of their static rules only. -/
theorem exists_static_of_lookup (hr : r.patterns = []) {x : String} {answer : List α}
    (h : r.lookup? x = some answer) :
    x ∈ r.statics.values.map StaticRule.input ∧
      answer ∈ r.statics.values.map StaticRule.resolved := by
  unfold lookup? at h
  rw [hr] at h
  cases hfind : r.statics.values.find? fun rule => rule.input = x with
  | none =>
    rw [hfind] at h
    cases h
  | some rule =>
    rw [hfind] at h
    have hmem := List.mem_of_find?_eq_some hfind
    have hinput : rule.input = x := by simpa using List.find?_some hfind
    exact ⟨List.mem_map.2 ⟨rule, hmem, hinput⟩,
      List.mem_map.2 ⟨rule, hmem, Option.some.inj h⟩⟩

/-- With static rules only, the number of rules bounds all unfoldings. -/
theorem exists_unfold_of_static {kind : AliasKind} {name? : α → Option String}
    (hr : r.patterns = []) {b : Nat} (hb : r.statics.length < b) (input : String) :
    ∃ res, Gives (unfold kind name? r.lookup? b [] input) res := by
  refine exists_unfold_of_finite (r.statics.values.map StaticRule.input) ?_
    List.nodup_nil (List.nil_subset _) (by simpa [Table.values] using hb)
  intro x _ hx
  obtain ⟨answer, hanswer⟩ := Option.ne_none_iff_exists'.1 hx
  exact (exists_static_of_lookup hr hanswer).1

end

end AtomicCss.AliasRules
