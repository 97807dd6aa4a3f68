import AtomicCss.Proofs.Declaration.Key
import AtomicCss.Proofs.Numeral
import AtomicCss.Store
import Mathlib.Data.List.Nodup

/-!
# Canonical stores

A store that is filled with one name prefix holds nothing but the list of the
declarations that it has seen, in order: the tables of names and rules are two
views of that list.

- `Store.ofDeclarations`: the store of a list of declarations.
- `Store.Canonical`: a store that is the store of some list without repetitions.
- `Store.intern_of_mem`, `Store.intern_of_notMem`: interning either finds a
  declaration or appends it to the list.
- `Store.nameOf?_eq_some_iff`: in a canonical store the two directions between
  names and declarations are inverse to each other.
-/

namespace AtomicCss.Store

/-- The name of the declaration at place `i`. -/
def placeName (namePrefix : String) (i : Nat) : String := namePrefix ++ Numeral.ofNat i

/-- Different places have different names. -/
theorem placeName_injective {namePrefix : String} {i j : Nat}
    (h : placeName namePrefix i = placeName namePrefix j) : i = j :=
  Numeral.ofNat_injective ((String.append_right_inj _).1 h)

/-- The store that has seen the declarations of a list in order. -/
def ofDeclarations (namePrefix : String) (ds : List Declaration) : Store where
  names := ds.mapIdx fun i d => (d.key, placeName namePrefix i)
  entries := ds.mapIdx fun i d => (placeName namePrefix i, ⟨placeName namePrefix i, d⟩)

/-- A store that has seen a list of different declarations and nothing else. -/
def Canonical (namePrefix : String) (s : Store) : Prop :=
  ∃ ds : List Declaration, ds.Nodup ∧ s = ofDeclarations namePrefix ds

variable {namePrefix : String} {ds : List Declaration}

theorem canonical_empty : Canonical namePrefix {} := ⟨[], List.nodup_nil, rfl⟩

/-! ## The two tables of a list of declarations -/

theorem keys_names (namePrefix : String) (ds : List Declaration) :
    Table.keys (ofDeclarations namePrefix ds).names = ds.map Declaration.key := by
  refine List.ext_getElem ?_ ?_ <;> simp [ofDeclarations, Table.keys]

theorem nodup_keys_names (h : ds.Nodup) :
    (Table.keys (ofDeclarations namePrefix ds).names).Nodup := by
  rw [keys_names]
  -- different declarations have different keys
  exact List.pairwise_map.2 (h.imp fun hne heq => hne (Declaration.key_inj heq))

theorem nodup_keys_entries :
    (Table.keys (ofDeclarations namePrefix ds).entries).Nodup := by
  rw [List.nodup_iff_pairwise_ne, List.pairwise_iff_getElem]
  intro i j hi hj hlt heq
  simp only [ofDeclarations, Table.keys, List.getElem_map, List.getElem_mapIdx] at heq
  exact absurd (placeName_injective heq) (Nat.ne_of_lt hlt)

theorem rules_ofDeclarations :
    (ofDeclarations namePrefix ds).rules =
      ds.mapIdx fun i d => ⟨placeName namePrefix i, d⟩ := by
  refine List.ext_getElem ?_ ?_ <;> simp [rules, ofDeclarations, Table.values]

/-- A declaration has the name of the place at which it stands. -/
theorem nameOf?_ofDeclarations (h : ds.Nodup) {d : Declaration} {name : String} :
    (ofDeclarations namePrefix ds).nameOf? d = some name ↔
      ∃ i, ds[i]? = some d ∧ placeName namePrefix i = name := by
  rw [nameOf?, Table.get?_eq_some_iff (nodup_keys_names h), ofDeclarations, List.mem_mapIdx]
  constructor
  · rintro ⟨i, hi, heq⟩
    obtain ⟨hkey, hname⟩ := Prod.mk.inj heq
    exact ⟨i, by rw [List.getElem?_eq_getElem hi, Declaration.key_inj hkey], hname⟩
  · rintro ⟨i, hd, rfl⟩
    obtain ⟨hi, rfl⟩ := List.getElem?_eq_some_iff.1 hd
    exact ⟨i, hi, rfl⟩

/-- A name has the rule of the declaration that stands at its place. -/
theorem get?_ofDeclarations {name : String} {r : AtomicRule} :
    (ofDeclarations namePrefix ds).get? name = some r ↔
      ∃ i d, ds[i]? = some d ∧ placeName namePrefix i = name ∧ r = ⟨name, d⟩ := by
  rw [get?, Table.get?_eq_some_iff nodup_keys_entries, ofDeclarations, List.mem_mapIdx]
  constructor
  · rintro ⟨i, hi, heq⟩
    obtain ⟨rfl, rfl⟩ := Prod.mk.inj heq
    exact ⟨i, _, List.getElem?_eq_getElem hi, rfl, rfl⟩
  · rintro ⟨i, d, hd, rfl, rfl⟩
    obtain ⟨hi, rfl⟩ := List.getElem?_eq_some_iff.1 hd
    exact ⟨i, hi, rfl⟩

/-! ## Interning -/

theorem notMem_keys_names {d : Declaration} (h : d ∉ ds) :
    d.key ∉ Table.keys (ofDeclarations namePrefix ds).names := by
  rw [keys_names, List.mem_map]
  rintro ⟨c, hc, hkey⟩
  exact h (Declaration.key_inj hkey ▸ hc)

theorem notMem_keys_entries :
    placeName namePrefix ds.length ∉ Table.keys (ofDeclarations namePrefix ds).entries := by
  simp only [ofDeclarations, Table.keys, List.mem_map, List.mem_mapIdx]
  rintro ⟨e, ⟨i, hi, rfl⟩, hname⟩
  -- the names in the table are those of the places before `ds.length`
  exact absurd (placeName_injective hname) (Nat.ne_of_lt hi)

/-- A declaration that the store has seen keeps its name, and the store stays. -/
theorem intern_of_mem (namePrefix : String) (h : ds.Nodup) {d : Declaration} (hd : d ∈ ds) :
    ∃ i, ds[i]? = some d ∧ (ofDeclarations namePrefix ds).intern d namePrefix =
      (⟨placeName namePrefix i, false⟩, ofDeclarations namePrefix ds) := by
  obtain ⟨i, hi⟩ := List.mem_iff_getElem?.1 hd
  have hname : Table.get? (ofDeclarations namePrefix ds).names d.key =
      some (placeName namePrefix i) := (nameOf?_ofDeclarations h).2 ⟨i, hi, rfl⟩
  exact ⟨i, hi, by rw [intern, hname]⟩

/-- A declaration that the store has not seen goes to the end of the list. -/
theorem intern_of_notMem {d : Declaration} (hd : d ∉ ds) :
    (ofDeclarations namePrefix ds).intern d namePrefix =
      (⟨placeName namePrefix ds.length, true⟩, ofDeclarations namePrefix (ds ++ [d])) := by
  have hkey : d.key ∉ Table.keys (ofDeclarations namePrefix ds).names := notMem_keys_names hd
  have hnone := Table.get?_eq_none_iff.2 hkey
  have hname : (ofDeclarations namePrefix ds).nextName namePrefix =
      placeName namePrefix ds.length := by
    simp [nextName, placeName, ofDeclarations]
  rw [intern, hnone]
  show (Interned.mk ((ofDeclarations namePrefix ds).nextName namePrefix) true, _) = _
  -- neither the key nor the name is in its table, so both entries go to the end
  rw [hname, Table.insert_of_notMem_keys _ hkey,
    Table.insert_of_notMem_keys _ notMem_keys_entries]
  simp [ofDeclarations, List.mapIdx_append]

/-- Interning keeps a store canonical, gives the declaration its name in the new
store, and only appends rules. -/
theorem intern_canonical {s : Store} (hs : s.Canonical namePrefix) (d : Declaration) :
    (s.intern d namePrefix).2.Canonical namePrefix ∧
      (s.intern d namePrefix).2.nameOf? d = some (s.intern d namePrefix).1.name ∧
      s.rules <+: (s.intern d namePrefix).2.rules := by
  obtain ⟨ds, hnodup, rfl⟩ := hs
  by_cases hd : d ∈ ds
  · obtain ⟨i, hi, heq⟩ := intern_of_mem namePrefix hnodup hd
    rw [heq]
    exact ⟨⟨ds, hnodup, rfl⟩, (nameOf?_ofDeclarations hnodup).2 ⟨i, hi, rfl⟩,
      List.prefix_refl _⟩
  · have hnodup' : (ds ++ [d]).Nodup := by
      rw [← List.concat_eq_append]
      exact List.Nodup.concat hd hnodup
    rw [intern_of_notMem hd]
    refine ⟨⟨_, hnodup', rfl⟩,
      (nameOf?_ofDeclarations hnodup').2 ⟨ds.length, by simp, rfl⟩, ?_⟩
    rw [rules_ofDeclarations, rules_ofDeclarations, List.mapIdx_append]
    exact List.prefix_append _ _

/-- Interning appends the rule of a declaration that is new. -/
theorem rules_intern {s : Store} (hs : s.Canonical namePrefix)
    (d : Declaration) : (s.intern d namePrefix).2.rules =
      s.rules ++ if (s.intern d namePrefix).1.created then
        [⟨(s.intern d namePrefix).1.name, d⟩] else [] := by
  obtain ⟨ds, hnodup, rfl⟩ := hs
  by_cases hd : d ∈ ds
  · obtain ⟨i, -, heq⟩ := intern_of_mem namePrefix hnodup hd
    simp [heq]
  · rw [intern_of_notMem hd, rules_ofDeclarations, rules_ofDeclarations, List.mapIdx_append]
    simp

/-! ## What canonical stores are like -/

section

variable {s : Store} (hs : s.Canonical namePrefix)

include hs

/-- The rule at place `i` has the numeral of `i` as its name. -/
theorem name_rules_getElem {i : Nat} (hi : i < s.rules.length) :
    s.rules[i].name = namePrefix ++ Numeral.ofNat i := by
  obtain ⟨ds, -, rfl⟩ := hs
  simp [rules_ofDeclarations, placeName]

/-- Names and declarations determine each other. -/
theorem nameOf?_eq_some_iff {d : Declaration} {name : String} :
    s.nameOf? d = some name ↔ s.get? name = some ⟨name, d⟩ := by
  obtain ⟨ds, hnodup, rfl⟩ := hs
  rw [nameOf?_ofDeclarations hnodup, get?_ofDeclarations]
  constructor
  · rintro ⟨i, hi, rfl⟩
    exact ⟨i, d, hi, rfl, rfl⟩
  · rintro ⟨i, d', hi, rfl, heq⟩
    obtain rfl : d = d' := (AtomicRule.mk.inj heq).2
    exact ⟨i, hi, rfl⟩

/-- A name has a rule exactly when the rule is in the list, under that name. -/
theorem get?_eq_some_iff {name : String} {r : AtomicRule} :
    s.get? name = some r ↔ r ∈ s.rules ∧ r.name = name := by
  obtain ⟨ds, -, rfl⟩ := hs
  rw [get?_ofDeclarations, rules_ofDeclarations, List.mem_mapIdx]
  constructor
  · rintro ⟨i, d, hd, rfl, rfl⟩
    obtain ⟨hi, rfl⟩ := List.getElem?_eq_some_iff.1 hd
    exact ⟨⟨i, hi, rfl⟩, rfl⟩
  · rintro ⟨⟨i, hi, rfl⟩, rfl⟩
    exact ⟨i, _, List.getElem?_eq_getElem hi, rfl, rfl⟩

end

end AtomicCss.Store
