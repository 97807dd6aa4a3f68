/-!
# Tables kept in insertion order

Definitions, configuration objects, rule lists and memos are all tables whose
order of entries can be observed: rules render in creation order, aliases are
tried in registration order. A table is the list of its entries.

- `Table.get?`: the value of a key.
- `Table.insert`: a new key goes to the end, a present key keeps its place and
  takes the new value.
- `Table.erase`: the entry of a key goes, the others keep their order.
- `Table.ofEntries`: entries read one after the other, so a repeated key keeps
  its first place and has its last value.
-/

namespace AtomicCss

/-- Entries in the order in which their keys were first inserted. -/
abbrev Table (κ α : Type) := List (κ × α)

namespace Table

variable {κ α : Type} [DecidableEq κ]

/-- The value stored under a key. -/
def get? : Table κ α → κ → Option α
  | [], _ => none
  | (k', v) :: t, k => if k' = k then some v else get? t k

/-- Does the table have an entry for the key? -/
def contains (t : Table κ α) (k : κ) : Bool := (get? t k).isSome

/-- Store a value under a key, in place if the key is present. -/
def insert : Table κ α → κ → α → Table κ α
  | [], k, v => [(k, v)]
  | (k', v') :: t, k, v => if k' = k then (k', v) :: t else (k', v') :: insert t k v

/-- Drop the entry of a key. -/
def erase : Table κ α → κ → Table κ α
  | [], _ => []
  | (k', v) :: t, k => if k' = k then t else (k', v) :: erase t k

/-- Drop every entry whose key satisfies `p`. -/
def eraseIf (p : κ → Bool) (t : Table κ α) : Table κ α := t.filter fun e => !p e.1

/-- Insert the entries of a list one after the other. -/
def insertAll (t : Table κ α) (entries : List (κ × α)) : Table κ α :=
  entries.foldl (fun t e => insert t e.1 e.2) t

/-- The table of a list of entries, in which a key may be repeated. -/
def ofEntries (entries : List (κ × α)) : Table κ α := insertAll [] entries

/-- The keys in order. -/
def keys (t : Table κ α) : List κ := t.map Prod.fst

/-- The values in order. -/
def values (t : Table κ α) : List α := t.map Prod.snd

@[simp] theorem get?_nil (k : κ) : get? ([] : Table κ α) k = none := rfl

@[simp] theorem get?_insert_self (t : Table κ α) (k : κ) (v : α) :
    get? (insert t k v) k = some v := by
  induction t with
  | nil => simp [insert, get?]
  | cons e t ih => by_cases h : e.1 = k <;> simp [insert, get?, h, ih]

theorem get?_insert_of_ne (t : Table κ α) {k k' : κ} (v : α) (h : k' ≠ k) :
    get? (insert t k v) k' = get? t k' := by
  induction t with
  | nil => simp [insert, get?, Ne.symm h]
  | cons e t ih =>
    by_cases he : e.1 = k
    · simp [insert, get?, he, Ne.symm h]
    · by_cases he' : e.1 = k'
      · subst he'; simp [insert, get?, h]
      · simp [insert, get?, he, he', ih]

/-- What holds of a new entry and of all old ones holds of all that are there then. -/
theorem forall_get?_insert {p : κ → α → Prop} {t : Table κ α} {k : κ} {v : α} (hv : p k v)
    (ht : ∀ {k' v'}, get? t k' = some v' → p k' v') {k' : κ} {v' : α}
    (h : get? (insert t k v) k' = some v') : p k' v' := by
  by_cases hk : k' = k
  · subst hk
    rw [get?_insert_self] at h
    exact Option.some.inj h ▸ hv
  · rw [get?_insert_of_ne t v hk] at h
    exact ht h

/-- Dropping an entry adds none. -/
theorem erase_sublist (t : Table κ α) (k : κ) : (erase t k).Sublist t := by
  induction t with
  | nil => exact List.Sublist.refl []
  | cons e t ih =>
    rw [erase]
    split
    · exact List.sublist_cons_self e t
    · exact ih.cons_cons e

/-- A key has the value of one of its entries. -/
theorem mem_of_get? {t : Table κ α} {k : κ} {v : α} (h : get? t k = some v) : (k, v) ∈ t := by
  induction t with
  | nil => cases h
  | cons e t ih =>
    obtain ⟨k', v'⟩ := e
    rw [get?] at h
    split at h
    · next hk =>
      subst hk
      obtain rfl := Option.some.inj h
      exact List.mem_cons_self
    · exact List.mem_cons_of_mem _ (ih h)

theorem mem_of_insert {t : Table κ α} {k : κ} {v : α} {e : κ × α} (h : e ∈ insert t k v) :
    e = (k, v) ∨ e ∈ t := by
  induction t with
  | nil => exact .inl (List.mem_singleton.1 h)
  | cons e' t ih =>
    rw [insert] at h
    split at h
    · next hk => exact (List.mem_cons.1 h).imp (·.trans (hk ▸ rfl)) (List.mem_cons_of_mem e')
    · rcases List.mem_cons.1 h with rfl | h
      · exact .inr List.mem_cons_self
      · exact (ih h).imp_right (List.mem_cons_of_mem e')

theorem mem_values_of_insert {t : Table κ α} {k : κ} {v w : α}
    (h : w ∈ values (insert t k v)) : w = v ∨ w ∈ values t := by
  obtain ⟨e, he, rfl⟩ := List.mem_map.1 h
  exact (mem_of_insert he).imp (congrArg Prod.snd) List.mem_map_of_mem

/-- A new key goes to the end of the keys, a present one keeps its place. -/
theorem keys_insert (t : Table κ α) (k : κ) (v : α) :
    keys (insert t k v) = if k ∈ keys t then keys t else keys t ++ [k] := by
  induction t with
  | nil => rfl
  | cons e t ih =>
    by_cases h : e.1 = k
    · simp [insert, keys, h]
    · have htail : keys (insert (e :: t) k v) = e.1 :: keys (insert t k v) :=
        congrArg keys (if_neg h)
      have hmem : k ∈ keys (e :: t) ↔ k ∈ keys t := by simp [keys, Ne.symm h]
      rw [htail, ih]
      simp only [hmem]
      split <;> rfl

/-- A table has no value for a key that is not among its keys. -/
theorem get?_eq_none_iff {t : Table κ α} {k : κ} : get? t k = none ↔ k ∉ keys t := by
  induction t with
  | nil => simp [keys]
  | cons e t ih =>
    by_cases h : e.1 = k
    · simp [get?, keys, h]
    · simpa [get?, keys, h, Ne.symm h] using ih

/-- Without an entry of the key there is nothing to drop. -/
theorem erase_of_notMem_keys {t : Table κ α} {k : κ} (h : k ∉ keys t) : erase t k = t := by
  induction t with
  | nil => rfl
  | cons e t ih =>
    obtain ⟨hne, hmem⟩ : k ≠ e.1 ∧ k ∉ keys t := by simpa [keys] using h
    rw [erase, if_neg (Ne.symm hne), ih hmem]

/-- A new key goes to the end. -/
theorem insert_of_notMem_keys {t : Table κ α} {k : κ} (v : α) (h : k ∉ keys t) :
    insert t k v = t ++ [(k, v)] := by
  induction t with
  | nil => rfl
  | cons e t ih =>
    obtain ⟨hne, hmem⟩ : k ≠ e.1 ∧ k ∉ keys t := by simpa [keys] using h
    rw [insert, if_neg (Ne.symm hne), ih hmem, List.cons_append]

/-- Where no key is repeated, a key has the value of its entry. -/
theorem get?_eq_some_iff {t : Table κ α} (ht : (keys t).Nodup) {k : κ} {v : α} :
    get? t k = some v ↔ (k, v) ∈ t := by
  induction t with
  | nil => simp
  | cons e t ih =>
    obtain ⟨hmem, hnodup⟩ : e.1 ∉ keys t ∧ (keys t).Nodup := by
      simpa only [keys, List.map_cons, List.nodup_cons] using ht
    by_cases h : e.1 = k
    · subst h
      have hout : (e.1, v) ∉ t := fun hin => hmem (List.mem_map.2 ⟨_, hin, rfl⟩)
      rw [get?, if_pos rfl, List.mem_cons, or_iff_left hout, Option.some.injEq, eq_comm,
        Prod.ext_iff]
      simp
    · rw [get?, if_neg h, ih hnodup, List.mem_cons, or_iff_right]
      exact fun heq => h (congrArg Prod.fst heq).symm

omit [DecidableEq κ] in
theorem keys_eraseIf (p : κ → Bool) (t : Table κ α) :
    keys (eraseIf p t) = (keys t).filter fun k => !p k := by
  rw [keys, keys, List.filter_map]
  rfl

/-- Keys that stay keep their values. -/
theorem get?_eraseIf (p : κ → Bool) (t : Table κ α) (k : κ) :
    get? (eraseIf p t) k = if p k then none else get? t k := by
  induction t with
  | nil => simp [eraseIf]
  | cons e t ih =>
    cases hp : p e.1 with
    | true =>
      have herase : eraseIf p (e :: t) = eraseIf p t := List.filter_cons_of_neg (by simp [hp])
      rw [herase, ih]
      by_cases hk : e.1 = k
      · simp [← hk, hp]
      · simp [get?, hk]
    | false =>
      have herase : eraseIf p (e :: t) = e :: eraseIf p t :=
        List.filter_cons_of_pos (by simp [hp])
      rw [herase, get?, get?, ih]
      by_cases hk : e.1 = k
      · simp [← hk, hp]
      · simp [hk]

end Table

end AtomicCss
