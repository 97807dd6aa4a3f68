import AtomicCss.Proofs.Stylesheet.Outline

/-!
# A stylesheet in groups

The tree of a list of entries, each a chain with a body, can be described without
inserting anything: entries are grouped by the first selector of their chains, each group
is a block, and what is left of its entries is grouped in the same way inside of it.

- `Block.heads`, `Block.group`, `Block.ending`: the selectors of the groups, what is left
  of the entries of a group, and the bodies whose chains end.
- `Block.grouped`: the text of entries, group by group.
- `Block.children_ofEntries`: the blocks of a tree are the trees of the groups.
- `Block.grouping_induct`: what holds of entries if it holds inside of their groups holds
  of all entries.
- `Block.childrenChars_ofEntries`: the text of a tree is that of its groups.
-/

namespace AtomicCss

/-- Where no key is repeated, a table is its keys with their values. -/
theorem Table.eq_map_keys {κ α : Type} [DecidableEq κ] {t : Table κ α} (h : (keys t).Nodup)
    (a : α) : t = (keys t).map fun k => (k, (get? t k).getD a) := by
  have hvalue : ∀ e ∈ t, (e.1, (get? t e.1).getD a) = e := by
    intro e he
    rw [(get?_eq_some_iff h).2 he, Option.getD_some]
  rw [keys, List.map_map]
  exact (List.map_id t).symm.trans (List.map_congr_left fun e he => (hvalue e he).symm)

namespace Block

/-! ## Groups of entries -/

/-- The selectors with which the chains of entries start, in the order of their first
occurrences. -/
def heads (entries : List (List String × String)) : List String :=
  distinct (entries.filterMap fun e => e.1.head?)

/-- What is left of an entry whose chain starts with the selector. -/
def rest? (selector : String) : List String × String → Option (List String × String)
  | ([], _) => none
  | (selector' :: chain, body) => if selector' = selector then some (chain, body) else none

/-- What is left of the entries whose chains start with the selector. -/
def group (selector : String) (entries : List (List String × String)) :
    List (List String × String) :=
  entries.filterMap (rest? selector)

/-- The different bodies of the entries whose chains have ended. -/
def ending (entries : List (List String × String)) : List String :=
  distinct ((entries.filter (·.1 = [])).map Prod.snd)

/-- The number of selectors in all chains. -/
def weight (entries : List (List String × String)) : Nat :=
  (entries.flatMap Prod.fst).length

variable {entries : List (List String × String)} {selector : String}

theorem rest?_eq_some_iff {e e' : List String × String} :
    rest? selector e = some e' ↔ e = (selector :: e'.1, e'.2) := by
  obtain ⟨_ | ⟨selector', chain⟩, body⟩ := e
  · simp [rest?]
  · by_cases h : selector' = selector <;> simp [rest?, h, Prod.ext_iff]

theorem mem_group_iff {e : List String × String} :
    e ∈ group selector entries ↔ (selector :: e.1, e.2) ∈ entries := by
  rw [group, List.mem_filterMap]
  constructor
  · rintro ⟨e', he', hrest⟩
    exact rest?_eq_some_iff.1 hrest ▸ he'
  · exact fun h => ⟨_, h, rest?_eq_some_iff.2 rfl⟩

theorem mem_heads_iff :
    selector ∈ heads entries ↔ ∃ chain body, (selector :: chain, body) ∈ entries := by
  rw [heads, mem_distinct, List.mem_filterMap]
  constructor
  · rintro ⟨⟨chain, body⟩, he, hhead⟩
    obtain ⟨chain, rfl⟩ := List.head?_eq_some_iff.1 hhead
    exact ⟨chain, body, he⟩
  · rintro ⟨chain, body, he⟩
    exact ⟨_, he, rfl⟩

theorem mem_ending_iff {body : String} : body ∈ ending entries ↔ ([], body) ∈ entries := by
  simp [ending, mem_distinct]

theorem weight_group_le (selector : String) (entries : List (List String × String)) :
    weight (group selector entries) ≤ weight entries := by
  induction entries with
  | nil => exact Nat.le_refl 0
  | cons e entries ih =>
    have hcons : weight (e :: entries) = e.1.length + weight entries := by simp [weight]
    cases hrest : rest? selector e with
    | none =>
      have hgroup : group selector (e :: entries) = group selector entries := by
        simp [group, hrest]
      rw [hgroup, hcons]
      omega
    | some e' =>
      have hgroup : weight (group selector (e :: entries)) =
          e'.1.length + weight (group selector entries) := by
        simp [group, hrest, weight]
      obtain rfl := rest?_eq_some_iff.1 hrest
      rw [hgroup, hcons, List.length_cons]
      omega

/-- Inside of a group there is less to group. -/
theorem weight_group_lt (h : selector ∈ heads entries) :
    weight (group selector entries) < weight entries := by
  obtain ⟨chain, body, hmem⟩ := mem_heads_iff.1 h
  obtain ⟨before, after, rfl⟩ := List.append_of_mem hmem
  have hgroup : weight (group selector (before ++ (selector :: chain, body) :: after)) =
      weight (group selector before) + (chain.length + weight (group selector after)) := by
    simp [group, rest?, weight]
  have hweight : weight (before ++ (selector :: chain, body) :: after) =
      weight before + (chain.length + 1 + weight after) := by
    simp only [weight, List.flatMap_append, List.flatMap_cons, List.length_append,
      List.length_cons]
  have hbefore := weight_group_le selector before
  have hafter := weight_group_le selector after
  omega

/-- The text of entries: for each group its selector and, within braces, the bodies whose
chains end there, parted by semicolons, and the groups inside. One more semicolon stands
between bodies and groups if there are both. -/
def grouped (entries : List (List String × String)) : List Char :=
  (heads entries).attach.flatMap fun ⟨selector, _⟩ =>
    let inner := group selector entries
    selector.toList ++ '\x7b' :: ((";".intercalate (ending inner)).toList
      ++ ((if ending inner ≠ [] ∧ heads inner ≠ [] then [';'] else [])
        ++ (grouped inner ++ ['\x7d'])))
termination_by weight entries
decreasing_by exact weight_group_lt ‹_›

/-- What holds of entries if it holds of what is left in each of their groups holds of all
entries. -/
@[elab_as_elim]
theorem grouping_induct {motive : List (List String × String) → Prop}
    (step : ∀ entries, (∀ selector ∈ heads entries, motive (group selector entries)) →
      motive entries)
    (entries : List (List String × String)) : motive entries :=
  step entries fun _ h =>
    have := weight_group_lt h
    grouping_induct step _
termination_by weight entries

/-! ## The tree of the groups -/

theorem bodies_ofEntries (entries : List (List String × String)) :
    (ofEntries entries).bodies = ending entries :=
  @bodies_within_ofEntries [] entries

theorem keys_children_ofEntries (entries : List (List String × String)) :
    Table.keys (ofEntries entries).children = heads entries := by
  have hnext : (fun e : List String × String => next? [] e.1) = fun e => e.1.head? := by
    funext ⟨chain, body⟩
    cases chain <;> rfl
  rw [heads, ← hnext]
  exact @selectors_within_ofEntries [] entries

/-- The block of a selector is the tree of what is left below the selector. -/
theorem child_ofEntries (entries : List (List String × String)) (selector : String) :
    (Table.get? (ofEntries entries).children selector).getD empty =
      ofEntries (group selector entries) := by
  induction entries using List.reverseRecOn with
  | nil => rfl
  | append_singleton entries e ih =>
    rw [ofEntries_append_singleton]
    obtain ⟨_ | ⟨selector', chain⟩, body⟩ := e
    · have hgroup : group selector (entries ++ [([], body)]) = group selector entries := by
        simp [group, rest?]
      rw [hgroup, ← ih]
      rfl
    · by_cases h : selector' = selector
      · subst h
        have hgroup : group selector' (entries ++ [(selector' :: chain, body)]) =
            group selector' entries ++ [(chain, body)] := by simp [group, rest?]
        rw [hgroup, ofEntries_append_singleton, ← ih]
        simp [insert, children, Table.get?_insert_self]
      · have hgroup : group selector (entries ++ [(selector' :: chain, body)]) =
            group selector entries := by simp [group, rest?, h]
        rw [hgroup, ← ih]
        simp [insert, children, Table.get?_insert_of_ne _ _ (Ne.symm h)]

/-- The blocks of a tree are the trees of the groups. -/
theorem children_ofEntries (entries : List (List String × String)) :
    (ofEntries entries).children =
      (heads entries).map fun selector => (selector, ofEntries (group selector entries)) := by
  have hnodup : (Table.keys (ofEntries entries).children).Nodup := by
    rw [keys_children_ofEntries]
    exact nodup_distinct _
  calc (ofEntries entries).children
      = (Table.keys (ofEntries entries).children).map fun selector =>
          (selector, (Table.get? (ofEntries entries).children selector).getD empty) :=
        Table.eq_map_keys hnodup empty
    _ = (heads entries).map fun selector => (selector, ofEntries (group selector entries)) := by
        simp only [keys_children_ofEntries, child_ofEntries]

/-! ## The text of the groups -/

theorem grouped_eq (entries : List (List String × String)) :
    grouped entries = (heads entries).flatMap fun selector =>
      selector.toList ++ '\x7b' :: ((";".intercalate (ending (group selector entries))).toList
        ++ ((if ending (group selector entries) ≠ [] ∧ heads (group selector entries) ≠ []
            then [';'] else [])
          ++ (grouped (group selector entries) ++ ['\x7d']))) := by
  rw [grouped]
  conv_rhs => rw [← List.attach_map_subtype_val (heads entries), List.flatMap_map]

theorem childrenChars_eq_flatMap (children : List (String × Block)) :
    childrenChars children = children.flatMap fun c => text c.1 c.2 := by
  induction children with
  | nil => rfl
  | cons c children ih => rw [childrenChars, ih, List.flatMap_cons]

/-- The text of a tree is that of the groups of its entries. -/
theorem childrenChars_ofEntries (entries : List (List String × String)) :
    childrenChars (ofEntries entries).children = grouped entries := by
  induction entries using grouping_induct with
  | step entries ih =>
    rw [childrenChars_eq_flatMap, children_ofEntries, List.flatMap_map, grouped_eq]
    refine List.flatMap_congr fun selector hselector => ?_
    have hchildren : (ofEntries (group selector entries)).children = [] ↔
        heads (group selector entries) = [] := by
      rw [children_ofEntries, List.map_eq_nil_iff]
    rw [text_eq, inside, ih selector hselector, bodies_ofEntries]
    by_cases hbodies : ending (group selector entries) = [] <;>
      by_cases hheads : heads (group selector entries) = [] <;>
      simp [hchildren, hbodies, hheads]

end Block

end AtomicCss
