import AtomicCss.Proofs.Extraction.Descent
import Mathlib.Data.Set.Finite.Basic

/-!
# Finitely many definitions

Where only finitely many shortcuts have an answer, a walk can enter no definitions
but those that stand somewhere in its items or in one of the answers. These are
finitely many, so a walk that is never led back ends.

- `StyleItem.inside`, `insideItems`: all definitions in an item, however deep.
- `Vocabulary.mem_inside_of_opens`: what is entered from a definition stands in it or
  in an answer.
- `acc_of_finite`: among finitely many things one cannot go on and on without going
  round in a circle.
- `Vocabulary.gives_iff_not_loops`: a call ends exactly if its items do not loop.
- `Vocabulary.gives_ok_iff_clear`: it succeeds exactly if all its steps can be taken.
-/

namespace AtomicCss

open Reading Relation

/-! ## Definitions in items -/

mutual

/-- The definitions in a value. -/
def StyleValue.inside : StyleValue → List StyleDefinition
  | .nested d => d :: insideEntries d
  | .property _ => []
  | .items items => insideItems items
termination_by structural v => v

/-- The definitions in an item. -/
def StyleItem.inside : StyleItem → List StyleDefinition
  | .shortcut _ => []
  | .definition d => d :: insideEntries d
termination_by structural i => i

/-- The definitions in the values of entries. -/
def insideEntries : List (String × StyleValue) → List StyleDefinition
  | [] => []
  | (_, v) :: entries => v.inside ++ insideEntries entries
termination_by structural entries => entries

/-- The definitions in items. -/
def insideItems : List StyleItem → List StyleDefinition
  | [] => []
  | i :: items => i.inside ++ insideItems items
termination_by structural items => items

end

variable {d d' : StyleDefinition}

mutual

/-- What stands in a definition in a value stands in the value. -/
theorem StyleValue.inside_trans : ∀ {v : StyleValue},
    d ∈ v.inside → d' ∈ insideEntries d → d' ∈ v.inside
  | .nested _, h, h' => by
    rcases List.mem_cons.1 h with rfl | h
    · exact List.mem_cons_of_mem _ h'
    · exact List.mem_cons_of_mem _ (insideEntries_trans h h')
  | .property _, h, _ => absurd h List.not_mem_nil
  | .items _, h, h' => insideItems_trans h h'
termination_by structural v => v

theorem StyleItem.inside_trans : ∀ {i : StyleItem},
    d ∈ i.inside → d' ∈ insideEntries d → d' ∈ i.inside
  | .shortcut _, h, _ => absurd h List.not_mem_nil
  | .definition _, h, h' => by
    rcases List.mem_cons.1 h with rfl | h
    · exact List.mem_cons_of_mem _ h'
    · exact List.mem_cons_of_mem _ (insideEntries_trans h h')
termination_by structural i => i

theorem insideEntries_trans : ∀ {entries : List (String × StyleValue)},
    d ∈ insideEntries entries → d' ∈ insideEntries d → d' ∈ insideEntries entries
  | [], h, _ => absurd h List.not_mem_nil
  | (_, _) :: _, h, h' => by
    rcases List.mem_append.1 h with h | h
    · exact List.mem_append_left _ (StyleValue.inside_trans h h')
    · exact List.mem_append_right _ (insideEntries_trans h h')
termination_by structural entries => entries

theorem insideItems_trans : ∀ {items : List StyleItem},
    d ∈ insideItems items → d' ∈ insideEntries d → d' ∈ insideItems items
  | [], h, _ => absurd h List.not_mem_nil
  | _ :: _, h, h' => by
    rcases List.mem_append.1 h with h | h
    · exact List.mem_append_left _ (StyleItem.inside_trans h h')
    · exact List.mem_append_right _ (insideItems_trans h h')
termination_by structural items => items

end

theorem mem_insideItems {items : List StyleItem} (h : .definition d ∈ items) :
    d ∈ insideItems items := by
  induction items with
  | nil => exact absurd h List.not_mem_nil
  | cons i items ih =>
    rcases List.mem_cons.1 h with rfl | h
    · exact List.mem_append_left _ List.mem_cons_self
    · exact List.mem_append_right _ (ih h)

theorem mem_insideEntries {entries : List (String × StyleValue)} {key : String}
    {v : StyleValue} (h : (key, v) ∈ entries) (hd : d ∈ v.inside) :
    d ∈ insideEntries entries := by
  induction entries with
  | nil => exact absurd h List.not_mem_nil
  | cons e entries ih =>
    rcases List.mem_cons.1 h with rfl | h
    · exact List.mem_append_left _ hd
    · exact List.mem_append_right _ (ih h)

/-! ## Where a walk can lead -/

/-- Marking a definition changes values of properties only. -/
theorem Important.mem_of_mem_apply {standard : Bool} {key : String} {v : StyleValue}
    (h : (key, v) ∈ Important.apply standard d) : (key, v) ∈ d ∨ ∃ p, v = .property p := by
  have hrest {v} (h : (key, v) ∈ Table.erase d Important.flagKey) : (key, v) ∈ d :=
    (Table.erase_sublist d Important.flagKey).subset h
  unfold Important.apply at h
  dsimp only at h
  split at h
  · obtain ⟨⟨key', w⟩, hw, heq⟩ := List.mem_map.1 h
    obtain ⟨rfl, rfl⟩ := Prod.mk.inj heq
    cases w with
    | nested d₀ => exact .inl (hrest hw)
    | items items => exact .inl (hrest hw)
    | property p => cases p <;> exact .inr ⟨_, rfl⟩
  · exact .inl (hrest h)

namespace Vocabulary

variable {v : Vocabulary} {n : Nat}

/-- The definition stands in an answer to a shortcut. -/
def InAnswer (v : Vocabulary) (d : StyleDefinition) : Prop :=
  ∃ name answer, v.shortcut? name = some answer ∧ d ∈ insideItems answer

theorem mem_of_mem_under {key : String} {steps : List (Option StyleDefinition)}
    (h : some d ∈ v.under n key steps) : some d ∈ steps := by
  unfold under at h
  split at h
  · exact h
  · simp at h

/-- What is entered from items stands in them or in an answer. -/
theorem mem_inside_of_itemSteps {items : List StyleItem} (h : some d ∈ v.itemSteps n items) :
    d ∈ insideItems items ∨ v.InAnswer d := by
  unfold itemSteps at h
  split at h
  · next out _ hout =>
    obtain ⟨i, hi, hd⟩ := List.mem_flatMap.1 h
    obtain rfl : i = .definition d := by
      cases i with
      | shortcut name => exact absurd hd List.not_mem_nil
      | definition d₀ => simpa [itemStep, eq_comm] using hd
    obtain ⟨j, hj, here, hhere, hd⟩ := exists_of_mem_collect_ok hout hi
    -- a definition is expanded to itself, a shortcut to items of some answer
    cases j with
    | definition d₀ =>
      obtain rfl := Except.ok.inj (gives_pure.1 hhere)
      obtain heq := List.mem_singleton.1 hd
      exact .inl (mem_insideItems (heq ▸ hj))
    | shortcut name =>
      rcases gives_bind.1 hhere with ⟨_, -, heq⟩ | ⟨full, hfull, hpure⟩
      · cases heq
      · obtain rfl := Except.ok.inj (gives_pure.1 hpure)
        cases full with
        | none => simp at hd
        | some full =>
          obtain ⟨x, answer, hanswer, hmem⟩ := AliasRules.exists_answer_of_unfold hfull hd
          exact .inr ⟨x, answer, hanswer, mem_insideItems hmem⟩
  · simp at h

/-- What is entered from a definition stands in it or in an answer. -/
theorem mem_inside_of_opens (h : v.Opens n d d') : d' ∈ insideEntries d ∨ v.InAnswer d' := by
  obtain ⟨⟨key, value⟩, he, hd⟩ := List.mem_flatMap.1 h.mem
  cases value with
  | property p => exact absurd hd List.not_mem_nil
  | nested d₀ =>
    obtain rfl : d' = d₀ := by simpa using mem_of_mem_under hd
    rcases Important.mem_of_mem_apply he with he | ⟨p, hp⟩
    · exact .inl (mem_insideEntries he List.mem_cons_self)
    · cases hp
  | items items =>
    rcases Important.mem_of_mem_apply he with he | ⟨p, hp⟩
    · exact (mem_inside_of_itemSteps (mem_of_mem_under hd)).imp_left (mem_insideEntries he)
    · cases hp

/-- What is entered from a call stands in its items or in an answer. -/
theorem mem_inside_of_enters {items : List StyleItem} (h : v.Enters n items d) :
    d ∈ insideItems items ∨ v.InAnswer d := by
  obtain ⟨i, hi, hd⟩ := List.mem_flatMap.1 h.mem
  cases i with
  | definition d₀ =>
    obtain rfl : d = d₀ := by simpa using hd
    exact .inl (mem_insideItems hi)
  | shortcut name =>
    refine (mem_inside_of_itemSteps hd).imp_left fun h => ?_
    exact absurd h List.not_mem_nil

/-- Everything that a call can lead to stands in its items or in an answer. -/
theorem mem_inside_of_reach {items : List StyleItem} (h : v.Enters n items d)
    (hreach : ReflTransGen (v.Opens n) d d') : d' ∈ insideItems items ∨ v.InAnswer d' := by
  induction hreach with
  | refl => exact mem_inside_of_enters h
  | tail _ hopens ih =>
    rcases mem_inside_of_opens hopens with hin | hin
    · rcases ih with ih | ⟨name, answer, hanswer, ih⟩
      · exact .inl (insideItems_trans ih hin)
      · exact .inr ⟨name, answer, hanswer, insideItems_trans ih hin⟩
    · exact .inr hin

end Vocabulary

/-! ## Going on and on -/

/-- Among finitely many things one cannot go on and on without going round in a circle. -/
theorem acc_of_finite {β : Type} {r : β → β → Prop} (all : List β) {x : β}
    (hall : ∀ y, ReflTransGen r x y → y ∈ all)
    (hacyclic : ∀ y, ReflTransGen r x y → ¬ TransGen r y y) : Acc (fun y x => r x y) x := by
  have hfinite : Finite {y // ReflTransGen r x y} := (List.finite_toSet all).subset hall
  -- to lead from one thing that is reached to another one is transitive and irreflexive
  have hwf : WellFounded fun z y : {y // ReflTransGen r x y} => TransGen r y.1 z.1 := by
    have htrans : IsTrans {y // ReflTransGen r x y} fun z y => TransGen r y.1 z.1 :=
      ⟨fun _ _ _ hzy hyw => hyw.trans hzy⟩
    have hirrefl : Std.Irrefl fun z y : {y // ReflTransGen r x y} => TransGen r y.1 z.1 :=
      ⟨fun y => hacyclic y.1 y.2⟩
    exact Finite.wellFounded_of_trans_of_irrefl _
  have hacc (y : {y // ReflTransGen r x y}) : Acc (fun y x => r x y) y.1 := by
    induction y using hwf.induction with
    | _ y ih => exact .intro y.1 fun z hyz => ih ⟨z, y.2.tail hyz⟩ (.single hyz)
  exact hacc ⟨x, .refl⟩

namespace Vocabulary

variable {v : Vocabulary} {n : Nat}

section

variable {answers : List (List StyleItem)} {items : List StyleItem}
  (hanswers : ∀ name answer, v.shortcut? name = some answer → answer ∈ answers)

include hanswers

/-- Where finitely many shortcuts have an answer, items that do not loop do not lead on
and on. -/
theorem acc_of_not_loops (hloops : ¬ v.Loops n items) (henters : v.Enters n items d) :
    Acc (fun d' d => v.Opens n d d') d := by
  refine acc_of_finite (insideItems items ++ answers.flatMap insideItems) ?_ ?_
  · intro d' hreach
    rcases mem_inside_of_reach henters hreach with h | ⟨name, answer, hanswer, h⟩
    · exact List.mem_append_left _ h
    · exact List.mem_append_right _ (List.mem_flatMap.2 ⟨answer, hanswers _ _ hanswer, h⟩)
  · exact fun d' hreach hloop => hloops ⟨d, d', henters, hreach, hloop⟩

/-- Where finitely many shortcuts have an answer, a call ends exactly if its items do
not loop. -/
theorem gives_iff_not_loops (henough : v.Enough n) :
    (∃ b r, Gives (v.extractAll b items) r) ↔ ¬ v.Loops n items := by
  constructor
  · rintro ⟨b, r, h⟩ hloops
    exact not_gives_of_loops henough hloops b r h
  · intro hloops
    obtain ⟨b, r, hr, -⟩ :=
      exists_gives_of_acc henough fun d => acc_of_not_loops hanswers hloops
    exact ⟨b, r, hr⟩

/-- It succeeds exactly if all its steps can be taken. -/
theorem gives_ok_iff_clear (henough : v.Enough n) :
    (∃ b out, Gives (v.extractAll b items) (.ok out)) ↔ v.Clear n (v.callSteps n items) := by
  have hruns := runs_extractAll henough items
  constructor
  · rintro ⟨b, out, hout⟩
    -- the items do not loop, and what is read then is `out`, whatever the budget
    have hloops := (gives_iff_not_loops hanswers henough).1 ⟨b, _, hout⟩
    obtain ⟨c, r, hr, hclear⟩ :=
      exists_gives_of_acc henough fun d => acc_of_not_loops hanswers hloops
    exact hclear out (hruns.rising.unique hr hout)
  · rintro ⟨hnone, hpasses⟩
    exact hruns.passes hnone fun d hd => (hpasses d hd).succeeds henough

end

end Vocabulary

end AtomicCss
