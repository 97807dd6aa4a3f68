import AtomicCss.Proofs.Distinct
import AtomicCss.Proofs.Store.Canonical

/-!
# Stores with prefixes of any sort

A caller may choose another prefix for each declaration. Then two places can have one name:
the prefix of the earlier place ends in the leading letters of the numeral of the later one,
and the later rule replaces the earlier one. This is the only way in which names collide, and
as long as it does not happen a name means what it meant when it was given.

- `Store.filled`: a store after a sequence of calls.
- `Store.firsts`: the calls that were the first ones for their declarations. The store is
  determined by them: `Store.filled_eq`.
- `Store.placeName_eq_iff`: when two places have the same name.
- `Store.keeps_names_iff`: names are kept exactly if no two places in use have the same name.
-/

namespace AtomicCss

namespace Table

variable {κ α : Type} [DecidableEq κ] {entries : List (κ × α)}

theorem ofEntries_append_singleton (entries : List (κ × α)) (e : κ × α) :
    ofEntries (entries ++ [e]) = insert (ofEntries entries) e.1 e.2 := by
  simp [ofEntries, insertAll]

/-- The keys of a table are those of its entries, each of them once. -/
theorem keys_ofEntries (entries : List (κ × α)) :
    keys (ofEntries entries) = distinct (entries.map Prod.fst) := by
  induction entries using List.reverseRecOn with
  | nil => rfl
  | append_singleton entries e ih =>
    rw [ofEntries_append_singleton, keys_insert, ih, List.map_append, List.map_singleton,
      distinct_append_singleton, pushNew]

theorem ofEntries_of_nodup (h : (entries.map Prod.fst).Nodup) : ofEntries entries = entries := by
  induction entries using List.reverseRecOn with
  | nil => rfl
  | append_singleton entries e ih =>
    rw [List.map_append, List.map_singleton, ← List.concat_eq_append, List.nodup_concat] at h
    obtain ⟨hmem, hnodup⟩ := h
    rw [ofEntries_append_singleton, ih hnodup, insert_of_notMem_keys _ hmem]

end Table

namespace Store

/-! ## Calls -/

/-- The store that has been filled by calls, each with a declaration and a prefix. -/
def filled (calls : List (Declaration × String)) : Store :=
  calls.foldl (fun s c => (s.intern c.1 c.2).2) {}

/-- One of the calls was about the declaration and has been answered with the name. -/
def Answered (calls : List (Declaration × String)) (d : Declaration) (name : String) : Prop :=
  ∃ before namePrefix after, calls = before ++ (d, namePrefix) :: after ∧
    ((filled before).intern d namePrefix).1.name = name

/-- Add a call unless there was one for its declaration. -/
def pushFirst (seen : List (Declaration × String)) (c : Declaration × String) :
    List (Declaration × String) :=
  if c.1 ∈ seen.map Prod.fst then seen else seen ++ [c]

/-- The calls that were the first ones for their declarations. -/
def firsts (calls : List (Declaration × String)) : List (Declaration × String) :=
  calls.foldl pushFirst []

/-- Two of the first calls have the same name: the prefix of the earlier one is that of the
later one with the leading letters of its numeral behind it, and what is left of that numeral
is the earlier one. -/
def Collide (calls : List (Declaration × String)) : Prop :=
  ∃ i j c c' letters, i < j ∧ (firsts calls)[i]? = some c ∧ (firsts calls)[j]? = some c' ∧
    c.2 = c'.2 ++ letters ∧ Numeral.ofNat j = letters ++ Numeral.ofNat i

variable {s : Store} {d d' : Declaration} {name namePrefix : String}
  {calls fs : List (Declaration × String)}

theorem filled_append_singleton (calls : List (Declaration × String)) (c : Declaration × String) :
    filled (calls ++ [c]) = ((filled calls).intern c.1 c.2).2 := by
  simp [filled]

theorem firsts_append_singleton (calls : List (Declaration × String)) (c : Declaration × String) :
    firsts (calls ++ [c]) = pushFirst (firsts calls) c := by
  simp [firsts]

theorem map_fst_firsts (calls : List (Declaration × String)) :
    (firsts calls).map Prod.fst = distinct (calls.map Prod.fst) := by
  induction calls using List.reverseRecOn with
  | nil => rfl
  | append_singleton calls c ih =>
    rw [firsts_append_singleton, List.map_append, List.map_singleton, distinct_append_singleton,
      pushNew, ← ih, pushFirst]
    split <;> simp

theorem nodup_firsts (calls : List (Declaration × String)) :
    ((firsts calls).map Prod.fst).Nodup := by
  rw [map_fst_firsts]
  exact nodup_distinct _

theorem firsts_subset : firsts calls ⊆ calls := by
  induction calls using List.reverseRecOn with
  | nil => exact List.Subset.refl []
  | append_singleton calls c ih =>
    rw [firsts_append_singleton, pushFirst]
    split
    · exact List.Subset.trans ih (List.subset_append_left calls [c])
    · exact List.append_subset.2 ⟨List.Subset.trans ih (List.subset_append_left calls [c]),
        List.subset_append_right calls [c]⟩

/-! ## Names of declarations -/

theorem nameOf?_intern_self (s : Store) (d : Declaration) (namePrefix : String) :
    (s.intern d namePrefix).2.nameOf? d = some (s.intern d namePrefix).1.name := by
  cases h : Table.get? s.names d.key with
  | some name => simp [intern, nameOf?, h]
  | none => simp [intern, nameOf?, h]

theorem nameOf?_intern_of_ne (h : d' ≠ d) :
    (s.intern d namePrefix).2.nameOf? d' = s.nameOf? d' := by
  have hkey : d'.key ≠ d.key := fun heq => h (Declaration.key_inj heq)
  cases hd : Table.get? s.names d.key with
  | some name => simp [intern, hd]
  | none => simp [intern, nameOf?, hd, Table.get?_insert_of_ne _ _ hkey]

/-- A name of a declaration stays its name, whatever is interned. -/
theorem nameOf?_intern_of_some (h : s.nameOf? d' = some name) :
    (s.intern d namePrefix).2.nameOf? d' = some name := by
  by_cases hd : d' = d
  · subst hd
    have hget : Table.get? s.names d'.key = some name := h
    simpa [intern, hget] using h
  · rw [nameOf?_intern_of_ne hd]
    exact h

/-- The name with which a call was answered is what the store says of its declaration. -/
theorem answered_iff : Answered calls d name ↔ (filled calls).nameOf? d = some name := by
  induction calls using List.reverseRecOn with
  | nil =>
    constructor
    · rintro ⟨before, namePrefix, after, hcalls, -⟩
      simp at hcalls
    · exact fun h => nomatch h
  | append_singleton calls c ih =>
    rw [filled_append_singleton]
    constructor
    · rintro ⟨before, namePrefix, after, hcalls, hname⟩
      rcases List.eq_nil_or_concat after with rfl | ⟨after, c', rfl⟩
      · obtain ⟨rfl, hc⟩ := List.append_inj' hcalls rfl
        obtain rfl := List.singleton_inj.1 hc
        rw [nameOf?_intern_self, hname]
      · -- the call was answered before the last one was made
        rw [List.concat_eq_append, ← List.cons_append, ← List.append_assoc] at hcalls
        obtain ⟨rfl, -⟩ := List.append_inj' hcalls rfl
        exact nameOf?_intern_of_some (ih.1 ⟨before, namePrefix, after, rfl, hname⟩)
    · intro h
      by_cases hd : d = c.1
      · subst hd
        rw [nameOf?_intern_self] at h
        exact ⟨calls, c.2, [], rfl, Option.some.inj h⟩
      · rw [nameOf?_intern_of_ne hd] at h
        obtain ⟨before, namePrefix, after, rfl, hname⟩ := ih.2 h
        exact ⟨before, namePrefix, after ++ [c], by simp, hname⟩

/-! ## The store of the first calls -/

/-- The names of the places of a list of first calls. -/
def givenNames (fs : List (Declaration × String)) : List String :=
  fs.mapIdx fun i c => placeName c.2 i

/-- The store of a list of first calls. Where a name is given twice, the rule that comes later
replaces the other one. -/
def ofFirsts (fs : List (Declaration × String)) : Store where
  names := fs.mapIdx fun i c => (c.1.key, placeName c.2 i)
  entries := Table.ofEntries (fs.mapIdx fun i c => (placeName c.2 i, ⟨placeName c.2 i, c.1⟩))

theorem map_fst_entries (fs : List (Declaration × String)) :
    (fs.mapIdx fun i c => (placeName c.2 i, (⟨placeName c.2 i, c.1⟩ : AtomicRule))).map Prod.fst =
      givenNames fs := by
  refine List.ext_getElem ?_ ?_ <;> simp [givenNames]

theorem keys_names_ofFirsts (fs : List (Declaration × String)) :
    Table.keys (ofFirsts fs).names = (fs.map Prod.fst).map Declaration.key := by
  refine List.ext_getElem ?_ ?_ <;> simp [ofFirsts, Table.keys]

/-- A declaration has the name of the place of its first call. -/
theorem nameOf?_ofFirsts (h : (fs.map Prod.fst).Nodup) :
    (ofFirsts fs).nameOf? d = some name ↔
      ∃ i namePrefix, fs[i]? = some (d, namePrefix) ∧ placeName namePrefix i = name := by
  have hkeys : (Table.keys (ofFirsts fs).names).Nodup := by
    rw [keys_names_ofFirsts]
    exact h.map fun _ _ => Declaration.key_inj
  rw [nameOf?, Table.get?_eq_some_iff hkeys, ofFirsts, List.mem_mapIdx]
  constructor
  · rintro ⟨i, hi, heq⟩
    obtain ⟨hkey, hname⟩ := Prod.mk.inj heq
    obtain rfl := Declaration.key_inj hkey
    exact ⟨i, fs[i].2, List.getElem?_eq_getElem hi, hname⟩
  · rintro ⟨i, namePrefix, hd, rfl⟩
    obtain ⟨hi, hd⟩ := List.getElem?_eq_some_iff.1 hd
    exact ⟨i, hi, by rw [hd]⟩

theorem intern_ofFirsts (h : (fs.map Prod.fst).Nodup) (c : Declaration × String) :
    ((ofFirsts fs).intern c.1 c.2).2 = ofFirsts (pushFirst fs c) := by
  by_cases hc : c.1 ∈ fs.map Prod.fst
  · obtain ⟨⟨d, namePrefix⟩, hmem, hd⟩ := List.mem_map.1 hc
    obtain ⟨i, hi⟩ := List.mem_iff_getElem?.1 hmem
    have hname : Table.get? (ofFirsts fs).names c.1.key = some (placeName namePrefix i) :=
      (nameOf?_ofFirsts h).2 ⟨i, namePrefix, hd ▸ hi, rfl⟩
    rw [pushFirst, if_pos hc, intern, hname]
  · have hkey : c.1.key ∉ Table.keys (ofFirsts fs).names := by
      rw [keys_names_ofFirsts]
      exact fun hmem => hc ((List.mem_map_of_injective fun _ _ => Declaration.key_inj).1 hmem)
    have hname : (ofFirsts fs).nextName c.2 = placeName c.2 fs.length := by
      simp [nextName, placeName, ofFirsts]
    rw [pushFirst, if_neg hc, intern, Table.get?_eq_none_iff.2 hkey]
    dsimp only
    -- the key is new, so its entry goes to the end; the name need not be
    rw [hname, Table.insert_of_notMem_keys _ hkey]
    simp [ofFirsts, List.mapIdx_append, Table.ofEntries_append_singleton]

/-- A store is determined by the first calls for its declarations. -/
theorem filled_eq (calls : List (Declaration × String)) :
    filled calls = ofFirsts (firsts calls) := by
  induction calls using List.reverseRecOn with
  | nil => rfl
  | append_singleton calls c ih =>
    rw [filled_append_singleton, ih, intern_ofFirsts (nodup_firsts calls),
      firsts_append_singleton]

/-! ## Places with one name -/

/-- Two places have the same name exactly if the prefix of the earlier one takes up the leading
letters of the later numeral. -/
theorem placeName_eq_iff {p q : String} {i j : Nat} (hij : i < j) :
    placeName p i = placeName q j ↔
      ∃ letters, p = q ++ letters ∧ Numeral.ofNat j = letters ++ Numeral.ofNat i := by
  constructor
  · intro h
    have hlist : p.toList ++ (Numeral.ofNat i).toList = q.toList ++ (Numeral.ofNat j).toList := by
      simpa [placeName] using congrArg String.toList h
    rcases List.append_eq_append_iff.1 hlist with ⟨cs, -, hi⟩ | ⟨cs, hp, hj⟩
    · -- the numeral of the smaller number cannot end in that of the greater one
      exact absurd (Numeral.le_of_ofNat_eq_append hi) (Nat.not_le.2 hij)
    · exact ⟨String.ofList cs, String.toList_inj.1 (by simpa using hp),
        String.toList_inj.1 (by simpa using hj)⟩
  · rintro ⟨letters, rfl, hj⟩
    rw [placeName, placeName, hj, String.append_assoc]

theorem nodup_givenNames_iff : (givenNames (firsts calls)).Nodup ↔ ¬ Collide calls := by
  rw [List.nodup_iff_pairwise_ne, List.pairwise_iff_getElem]
  have hlength : (givenNames (firsts calls)).length = (firsts calls).length := by
    simp [givenNames]
  constructor
  · rintro h ⟨i, j, c, c', letters, hij, hc, hc', hlonger, hletters⟩
    obtain ⟨hi, rfl⟩ := List.getElem?_eq_some_iff.1 hc
    obtain ⟨hj, rfl⟩ := List.getElem?_eq_some_iff.1 hc'
    refine h i j (hlength ▸ hi) (hlength ▸ hj) hij ?_
    simpa [givenNames] using (placeName_eq_iff hij).2 ⟨letters, hlonger, hletters⟩
  · intro h i j hi hj hij heq
    have hi' : i < (firsts calls).length := hlength ▸ hi
    have hj' : j < (firsts calls).length := hlength ▸ hj
    have hname : placeName (firsts calls)[i].2 i = placeName (firsts calls)[j].2 j := by
      simpa [givenNames] using heq
    obtain ⟨letters, hlonger, hletters⟩ := (placeName_eq_iff hij).1 hname
    exact h ⟨i, j, _, _, letters, hij, List.getElem?_eq_getElem hi', List.getElem?_eq_getElem hj',
      hlonger, hletters⟩

/-! ## Calls without collisions -/

/-- The letters that lead one numeral to another one are not none. -/
theorem letters_ne_nil {i j : Nat} {letters : String} (hij : i < j)
    (h : Numeral.ofNat j = letters ++ Numeral.ofNat i) : letters.toList ≠ [] := by
  intro hnil
  obtain rfl : letters = "" := String.toList_inj.1 hnil
  rw [String.empty_append] at h
  exact Nat.ne_of_gt hij (Numeral.ofNat_injective h)

/-- Where all prefixes are the same, no names collide. -/
theorem not_collide_of_forall_eq (h : ∀ c ∈ calls, c.2 = namePrefix) : ¬ Collide calls := by
  rintro ⟨i, j, c, c', letters, hij, hc, hc', hlonger, hletters⟩
  have hc := h c (firsts_subset (List.mem_of_getElem? hc))
  have hc' := h c' (firsts_subset (List.mem_of_getElem? hc'))
  rw [hc, hc'] at hlonger
  have hnil : letters.toList = [] := by simpa using congrArg String.toList hlonger
  exact letters_ne_nil hij hletters hnil

/-- Where no prefix ends in a letter of the numerals, none do, either. -/
theorem not_collide_of_notMem_alphabet
    (h : ∀ c ∈ calls, ∀ letter ∈ c.2.toList.getLast?, letter ∉ Numeral.alphabet) :
    ¬ Collide calls := by
  rintro ⟨i, j, c, c', letters, hij, hc, -, hlonger, hletters⟩
  have hne := letters_ne_nil hij hletters
  -- the prefix of the earlier call ends in the last one of the letters
  have hlast : letters.toList.getLast hne ∈ c.2.toList.getLast? := by
    rw [hlonger, String.toList_append, List.getLast?_append_of_ne_nil _ hne,
      List.getLast?_eq_some_getLast hne]
    rfl
  refine h c (firsts_subset (List.mem_of_getElem? hc)) _ hlast ?_
  refine Numeral.mem_alphabet_of_mem_ofNat (n := j) ?_
  rw [hletters, String.toList_append]
  exact List.mem_append_left _ (List.getLast_mem hne)

/-- The names of the first fifty-two declarations do not collide. -/
theorem not_collide_of_length_le (h : (distinct (calls.map Prod.fst)).length ≤ 52) :
    ¬ Collide calls := by
  rintro ⟨i, j, c, c', letters, hij, hc, hc', hlonger, hletters⟩
  obtain ⟨hj, -⟩ := List.getElem?_eq_some_iff.1 hc'
  rw [← List.length_map, map_fst_firsts] at hj
  have hone : (Numeral.ofNat j).toList.length = 1 := Numeral.length_ofNat_of_lt (by omega)
  have hletter := List.length_pos_iff.2 (letters_ne_nil hij hletters)
  have hnumeral := List.length_pos_iff.2 (Numeral.ofNat_ne_nil i)
  rw [hletters, String.toList_append, List.length_append] at hone
  omega

/-! ## What becomes of names -/

/-- A rule stands under its name as long as no other rule was given that name. -/
theorem get?_ofFirsts (h : (givenNames fs).Nodup) {r : AtomicRule} :
    (ofFirsts fs).get? name = some r ↔ ∃ i c, fs[i]? = some c ∧ placeName c.2 i = name ∧
      r = ⟨name, c.1⟩ := by
  rw [← map_fst_entries] at h
  rw [get?, ofFirsts, Table.ofEntries_of_nodup h, Table.get?_eq_some_iff h, List.mem_mapIdx]
  constructor
  · rintro ⟨i, hi, heq⟩
    obtain ⟨rfl, rfl⟩ := Prod.mk.inj heq
    exact ⟨i, _, List.getElem?_eq_getElem hi, rfl, rfl⟩
  · rintro ⟨i, c, hc, rfl, rfl⟩
    obtain ⟨hi, rfl⟩ := List.getElem?_eq_some_iff.1 hc
    exact ⟨i, hi, rfl⟩

theorem size_ofFirsts (fs : List (Declaration × String)) :
    (ofFirsts fs).size = (distinct (givenNames fs)).length := by
  rw [size, ← List.length_map (f := Prod.fst)]
  exact congrArg List.length ((Table.keys_ofEntries _).trans (by rw [map_fst_entries]))

/-- No name is given twice exactly if names tell declarations apart. -/
theorem nodup_givenNames_iff_apart : (givenNames (firsts calls)).Nodup ↔
    ∀ d d' name, Answered calls d name → Answered calls d' name → d = d' := by
  simp only [answered_iff, filled_eq, nameOf?_ofFirsts (nodup_firsts calls)]
  constructor
  · rintro h d d' name ⟨i, p, hi, rfl⟩ ⟨j, q, hj, heq⟩
    have hget : (givenNames (firsts calls))[i]? = (givenNames (firsts calls))[j]? := by
      simp [givenNames, hi, hj, heq]
    obtain ⟨hlt, -⟩ := List.getElem?_eq_some_iff.1 hi
    obtain rfl := (List.getElem?_inj (by simpa [givenNames] using hlt) h).1 hget
    exact congrArg Prod.fst (Option.some.inj (hi.symm.trans hj))
  · intro h
    rw [List.nodup_iff_pairwise_ne, List.pairwise_iff_getElem]
    intro i j hi hj hij heq
    have hi' : i < (firsts calls).length := by simpa [givenNames] using hi
    have hj' : j < (firsts calls).length := by simpa [givenNames] using hj
    have hname : placeName (firsts calls)[j].2 j = placeName (firsts calls)[i].2 i := by
      simpa [givenNames] using heq.symm
    have hd : (firsts calls)[i].1 = (firsts calls)[j].1 :=
      h _ _ _ ⟨i, _, List.getElem?_eq_getElem hi', rfl⟩ ⟨j, _, List.getElem?_eq_getElem hj', hname⟩
    -- the two first calls would be for one declaration
    have hget : ((firsts calls).map Prod.fst)[i]? = ((firsts calls).map Prod.fst)[j]? := by
      simp [hi', hj', hd]
    exact Nat.ne_of_lt hij ((List.getElem?_inj (by simpa using hi') (nodup_firsts calls)).1 hget)

/-- No name is given twice exactly if every name still means what it was given for. -/
theorem nodup_givenNames_iff_kept : (givenNames (firsts calls)).Nodup ↔
    ∀ d name, Answered calls d name → (filled calls).get? name = some ⟨name, d⟩ := by
  constructor
  · intro h d name hname
    rw [answered_iff, filled_eq, nameOf?_ofFirsts (nodup_firsts calls)] at hname
    obtain ⟨i, namePrefix, hi, rfl⟩ := hname
    rw [filled_eq, get?_ofFirsts h]
    exact ⟨i, _, hi, rfl, rfl⟩
  · intro h
    refine nodup_givenNames_iff_apart.2 fun d d' name hd hd' => ?_
    exact (AtomicRule.mk.inj (Option.some.inj ((h d name hd).symm.trans (h d' name hd')))).2

/-- No name is given twice exactly if there are as many rules as declarations. -/
theorem nodup_givenNames_iff_counted : (givenNames (firsts calls)).Nodup ↔
    (filled calls).size = (distinct (calls.map Prod.fst)).length := by
  rw [filled_eq, size_ofFirsts, ← map_fst_firsts, List.length_map, ← length_distinct_eq_iff]
  simp [givenNames]

/-- Whatever prefixes callers choose, a declaration always gets the same name, and the store
goes on to find it. That a name goes on to mean its declaration, that different declarations
have different names, and that there are as many rules as declarations: each of these holds
exactly if no two first calls have the same name. They never have where the prefix is always
the same, where no prefix ends in a letter, or where there are not more than fifty-two
declarations. -/
theorem keeps_names_iff (calls : List (Declaration × String)) :
    (∀ d name, Answered calls d name ↔ (filled calls).nameOf? d = some name) ∧
    ((∀ d name, Answered calls d name → (filled calls).get? name = some ⟨name, d⟩) ↔
      ¬ Collide calls) ∧
    ((∀ d d' name, Answered calls d name → Answered calls d' name → d = d') ↔
      ¬ Collide calls) ∧
    ((filled calls).size = (distinct (calls.map Prod.fst)).length ↔ ¬ Collide calls) ∧
    ((∃ namePrefix, ∀ c ∈ calls, c.2 = namePrefix) ∨
      (∀ c ∈ calls, ∀ letter ∈ c.2.toList.getLast?, letter ∉ Numeral.alphabet) ∨
      (distinct (calls.map Prod.fst)).length ≤ 52 → ¬ Collide calls) := by
  refine ⟨fun d name => answered_iff, ?_, ?_, ?_, ?_⟩
  · rw [← nodup_givenNames_iff, nodup_givenNames_iff_kept]
  · rw [← nodup_givenNames_iff, nodup_givenNames_iff_apart]
  · rw [← nodup_givenNames_iff, nodup_givenNames_iff_counted]
  · rintro (⟨namePrefix, h⟩ | h | h)
    · exact not_collide_of_forall_eq h
    · exact not_collide_of_notMem_alphabet h
    · exact not_collide_of_length_le h

/-- Fifty-three calls, of which the first one has a prefix. -/
def orderCalls : List (Declaration × String) :=
  (List.range 53).map fun n => (⟨[".$$"], "order", [toString n]⟩, if n = 0 then "b" else "")

/-- The last one takes away the name of the first one. -/
theorem name_lost_ba :
    let first : Declaration := ⟨[".$$"], "order", ["0"]⟩
    let last : Declaration := ⟨[".$$"], "order", ["52"]⟩
    (Answered orderCalls first "ba" ∧ (filled orderCalls).get? "ba" = some ⟨"ba", last⟩) ∧
    (Answered orderCalls last "ba" ∧ first ≠ last) ∧
    ((filled orderCalls).size = 52 ∧ (distinct (orderCalls.map Prod.fst)).length = 53) := by
  intro first last
  have hfirsts : firsts orderCalls = orderCalls := by decide +kernel
  have hnodup : (orderCalls.map Prod.fst).Nodup := hfirsts ▸ nodup_firsts orderCalls
  simp only [answered_iff, filled_eq, ← map_fst_firsts, hfirsts, nameOf?_ofFirsts hnodup]
  refine ⟨⟨⟨0, "b", by decide +kernel, by decide⟩, by decide +kernel⟩,
    ⟨⟨52, "", by decide +kernel, by decide⟩, by decide⟩, by decide +kernel, by decide +kernel⟩

end Store

end AtomicCss
