import AtomicCss.Proofs.Store.Canonical
import Mathlib.Logic.Equiv.Defs

/-!
# Renaming rules

Two canonical stores of one prefix that hold the same declarations use the same names, but
perhaps not for the same declarations: their rules may have been created in different
orders. Then a permutation of names leads from the one store to the other.

- `Store.declarations`: what the rules of a store say, in the order of their creation.
- `Store.Renames`: a permutation of names that leads from one store to another.
- `Store.exists_renames`: there is one where the declarations are the same.
-/

namespace AtomicCss

namespace Store

variable {namePrefix : String} {s s' : Store} {d : Declaration} {name : String}

/-- What the rules of a store say, in the order of their creation. -/
def declarations (s : Store) : List Declaration := s.rules.map AtomicRule.declaration

theorem declarations_ofDeclarations (ds : List Declaration) :
    (ofDeclarations namePrefix ds).declarations = ds := by
  rw [declarations, rules_ofDeclarations]
  refine List.ext_getElem ?_ ?_ <;> simp

section

variable (hs : s.Canonical namePrefix)

include hs

theorem nodup_declarations : s.declarations.Nodup := by
  obtain ⟨ds, hnodup, rfl⟩ := hs
  rwa [declarations_ofDeclarations]

theorem size_eq_length_declarations : s.size = s.declarations.length := by
  obtain ⟨ds, -, rfl⟩ := hs
  rw [declarations_ofDeclarations]
  simp [size, ofDeclarations]

/-- What rules say is what has a name. -/
theorem mem_declarations_iff : d ∈ s.declarations ↔ ∃ name, s.nameOf? d = some name := by
  obtain ⟨ds, hnodup, rfl⟩ := hs
  rw [declarations_ofDeclarations, List.mem_iff_getElem?]
  constructor
  · rintro ⟨i, hi⟩
    exact ⟨_, (nameOf?_ofDeclarations hnodup).2 ⟨i, hi, rfl⟩⟩
  · rintro ⟨name, hname⟩
    obtain ⟨i, hi, -⟩ := (nameOf?_ofDeclarations hnodup).1 hname
    exact ⟨i, hi⟩

/-- The names of rules are those of the places before the number of rules. -/
theorem exists_get?_iff :
    (∃ r, s.get? name = some r) ↔ ∃ i < s.declarations.length, placeName namePrefix i = name := by
  obtain ⟨ds, -, rfl⟩ := hs
  simp only [declarations_ofDeclarations, get?_ofDeclarations]
  constructor
  · rintro ⟨r, i, d, hd, hname, -⟩
    exact ⟨i, (List.getElem?_eq_some_iff.1 hd).1, hname⟩
  · rintro ⟨i, hi, hname⟩
    exact ⟨_, i, _, List.getElem?_eq_getElem hi, hname, rfl⟩

/-- Interning adds its declaration to those of the store. -/
theorem mem_declarations_intern {d' : Declaration} :
    d ∈ (s.intern d' namePrefix).2.declarations ↔ d = d' ∨ d ∈ s.declarations := by
  obtain ⟨ds, hnodup, rfl⟩ := hs
  by_cases hd : d' ∈ ds
  · obtain ⟨i, -, heq⟩ := intern_of_mem namePrefix hnodup hd
    rw [heq, declarations_ofDeclarations]
    exact ⟨.inr, fun h => h.elim (fun heq => heq ▸ hd) id⟩
  · rw [intern_of_notMem hd, declarations_ofDeclarations, declarations_ofDeclarations]
    simp [or_comm]

end

/-! ## From one store to another -/

/-- The name in another store of what a name stands for. A name of no rule stays. -/
def rename (s s' : Store) (name : String) : String :=
  ((s.get? name).bind fun r => s'.nameOf? r.declaration).getD name

/-- A permutation of names that leads from the names of declarations in one store to those
in another store, and leaves other names alone. -/
structure Renames (ρ : Equiv.Perm String) (s s' : Store) : Prop where
  nameOf? : ∀ {d name}, s.nameOf? d = some name → s'.nameOf? d = some (ρ name)
  others : ∀ {name}, s.get? name = none → ρ name = name

section

variable (hs : s.Canonical namePrefix) (hs' : s'.Canonical namePrefix)
  (hperm : s.declarations.Perm s'.declarations)

include hs hs' hperm

/-- The name of a declaration is renamed to its name in the other store. -/
theorem nameOf?_rename (h : s.nameOf? d = some name) :
    s'.nameOf? d = some (s.rename s' name) := by
  have hd : d ∈ s'.declarations := hperm.mem_iff.1 ((mem_declarations_iff hs).2 ⟨name, h⟩)
  obtain ⟨name', hname'⟩ := (mem_declarations_iff hs').1 hd
  rw [rename, (nameOf?_eq_some_iff hs).1 h, Option.bind_some, hname', Option.getD_some]

theorem get?_eq_none_of_perm (h : s.get? name = none) : s'.get? name = none := by
  rw [← Option.not_isSome_iff_eq_none, Option.isSome_iff_exists, exists_get?_iff hs] at h
  rw [← Option.not_isSome_iff_eq_none, Option.isSome_iff_exists, exists_get?_iff hs',
    ← hperm.length_eq]
  exact h

/-- The way there and back leads to the same name. -/
theorem rename_rename : s'.rename s (s.rename s' name) = name := by
  cases hget : s.get? name with
  | none =>
    have hstays : s.rename s' name = name := by rw [rename, hget]; rfl
    have hget' := get?_eq_none_of_perm hs hs' hperm hget
    rw [hstays, rename, hget']
    rfl
  | some r =>
    have hname := ((get?_eq_some_iff hs).1 hget).2
    subst hname
    have hnameOf : s.nameOf? r.declaration = some r.name := (nameOf?_eq_some_iff hs).2 hget
    have hrename := nameOf?_rename hs hs' hperm hnameOf
    have hback := nameOf?_rename hs' hs hperm.symm hrename
    exact Option.some.inj (hback.symm.trans hnameOf)

/-- Where two stores hold the same declarations, names can be permuted to lead from the one
to the other. -/
theorem exists_renames : ∃ ρ, Renames ρ s s' := by
  refine ⟨⟨s.rename s', s'.rename s, fun _ => rename_rename hs hs' hperm,
    fun _ => rename_rename hs' hs hperm.symm⟩, ?_, ?_⟩
  · exact fun h => nameOf?_rename hs hs' hperm h
  · intro name h
    show s.rename s' name = name
    rw [rename, h]
    rfl

end

end Store

end AtomicCss
