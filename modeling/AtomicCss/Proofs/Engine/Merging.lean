import AtomicCss.Proofs.Distinct
import AtomicCss.Proofs.Engine.Previews
import Mathlib.Data.List.ReduceOption
import Mathlib.Data.Option.Basic

/-!
# The last write wins

What a style says is merged part by part: a name that nothing resolves keeps its first
place, an assignment takes the slot of its target away and goes to the end, a removal takes
it away for good. Looked at from the end, a part leaves a slot or none, and which of the two
it is can be seen from the parts before and behind it alone.

- `Extracted.slot?`: the slot that a part leaves among others.
- `survivors`: the slots that the parts of a list leave, in the order of the parts.
- `Extracted.enter`, `merge_append_singleton`: what one more part does to the slots.
- `merge_eq_survivors`: merging leaves the survivors.
- `merge_removal`: a removal takes back all that was said about its target, and no more.
- `Engine.last_write_wins`: what is left of a style, and that the rules with which a use is
  answered are different ones.
-/

namespace AtomicCss

/-! ## What parts leave -/

/-- What a part is about. -/
def Extracted.key : Extracted → SlotKey
  | .unknown name => .unknown name
  | .assignment a => .target a.chain a.property

/-- What a slot is about. -/
def Slot.key : Slot → SlotKey
  | .unknown name => .unknown name
  | .declaration d => .target d.chain d.property

/-- The slot of an assignment; a removal has none. -/
def Assignment.slot? (a : Assignment) : Option Slot :=
  a.values.map fun values => .declaration ⟨a.chain, a.property, values⟩

/-- The slot that a part leaves between the parts before it and those behind it: a name at
its first occurrence, and an assignment that no later part about its target follows. -/
def Extracted.slot? (before behind : List Extracted) : Extracted → Option Slot
  | .unknown name => if .unknown name ∈ before.map key then none else some (.unknown name)
  | .assignment a => if .target a.chain a.property ∈ behind.map key then none else a.slot?

/-- The slots that the parts of a list leave. -/
def survivors (parts : List Extracted) : List Slot :=
  (parts.mapIdx fun i part => part.slot? (parts.take i) (parts.drop (i + 1))).reduceOption

variable {parts xs : List Extracted} {slots : List Slot} {p : Extracted}

@[simp] theorem Extracted.key_unknown (name : String) :
    (Extracted.unknown name).key = .unknown name := rfl

@[simp] theorem Extracted.key_assignment (a : Assignment) :
    (Extracted.assignment a).key = .target a.chain a.property := rfl

theorem Slot.key_eq_unknown_iff {s : Slot} {name : String} :
    s.key = .unknown name ↔ s = .unknown name := by
  cases s <;> simp [Slot.key]

theorem Extracted.key_eq_unknown_iff {name : String} :
    p.key = .unknown name ↔ p = .unknown name := by
  cases p <;> simp

theorem Assignment.key_of_slot? {a : Assignment} {s : Slot} (h : a.slot? = some s) :
    s.key = .target a.chain a.property := by
  obtain ⟨values, -, rfl⟩ := Option.map_eq_some_iff.1 h
  rfl

/-- One more part leaves its own slot, and keeps some of the others. -/
theorem survivors_append_singleton {keeps : Slot → Bool}
    (h : ∀ before behind x,
      Extracted.slot? before (behind ++ [p]) x = (Extracted.slot? before behind x).filter keeps) :
    survivors (parts ++ [p]) =
      (survivors parts).filter keeps ++ (p.slot? parts []).toList := by
  have hothers : (parts.mapIdx fun i x =>
        x.slot? ((parts ++ [p]).take i) ((parts ++ [p]).drop (i + 1))) =
      (parts.mapIdx fun i x => x.slot? (parts.take i) (parts.drop (i + 1))).map
        (Option.filter keeps) := by
    refine List.ext_getElem (by simp) fun i hi _ => ?_
    have hlt : i < parts.length := by simpa using hi
    rw [List.getElem_mapIdx, List.getElem_map, List.getElem_mapIdx, ← h,
      List.take_append_of_le_length (Nat.le_of_lt hlt), List.drop_append_of_le_length hlt]
  have hfilter (l : List (Option Slot)) :
      (l.map (Option.filter keeps)).reduceOption = l.reduceOption.filter keeps := by
    simp only [List.reduceOption, List.filterMap_map, List.filter_filterMap]
    rfl
  rw [survivors, List.mapIdx_concat, List.reduceOption_append, hothers, hfilter]
  congr 1
  rw [List.drop_of_length_le (by simp), List.take_left]
  cases p.slot? parts [] <;> rfl

theorem survivors_unknown (parts : List Extracted) (name : String) :
    survivors (parts ++ [.unknown name]) =
      survivors parts ++ if .unknown name ∈ parts then [] else [.unknown name] := by
  have hkeeps (before behind : List Extracted) (x : Extracted) :
      x.slot? before (behind ++ [.unknown name]) =
        (x.slot? before behind).filter fun _ => true := by
    have hsame : x.slot? before (behind ++ [.unknown name]) = x.slot? before behind := by
      cases x with
      | unknown other => rfl
      | assignment a =>
        rw [Extracted.slot?, Extracted.slot?, List.map_append, List.map_singleton]
        simp only [List.mem_append, List.mem_singleton, Extracted.key_unknown, reduceCtorEq,
          or_false]
    rw [hsame]
    cases x.slot? before behind <;> rfl
  rw [survivors_append_singleton hkeeps, List.filter_true]
  congr 1
  simp only [Extracted.slot?, List.mem_map, Extracted.key_eq_unknown_iff, exists_eq_right]
  split <;> rfl

theorem survivors_assignment (parts : List Extracted) (a : Assignment) :
    survivors (parts ++ [.assignment a]) =
      (survivors parts).filter (·.key ≠ .target a.chain a.property) ++ a.slot?.toList := by
  have hkeeps (before behind : List Extracted) (x : Extracted) :
      x.slot? before (behind ++ [.assignment a]) =
        (x.slot? before behind).filter (·.key ≠ .target a.chain a.property) := by
    cases x with
    | unknown name =>
      simp only [Extracted.slot?]
      split <;> rfl
    | assignment b =>
      rw [Extracted.slot?, Extracted.slot?, List.map_append, List.map_singleton]
      simp only [List.mem_append, List.mem_singleton, Extracted.key_assignment]
      by_cases hbehind : SlotKey.target b.chain b.property ∈ behind.map Extracted.key
      · rw [if_pos hbehind, if_pos (.inl hbehind)]
        rfl
      rw [if_neg hbehind]
      by_cases hkey : SlotKey.target b.chain b.property = .target a.chain a.property
      · -- the new assignment is about the same target, so the slot goes
        rw [if_pos (.inr hkey)]
        cases hslot : b.slot? with
        | none => rfl
        | some s => simp [Option.filter, Assignment.key_of_slot? hslot, hkey]
      · rw [if_neg (not_or.2 ⟨hbehind, hkey⟩)]
        cases hslot : b.slot? with
        | none => rfl
        | some s => simp [Option.filter, Assignment.key_of_slot? hslot, hkey]
  rw [survivors_append_singleton hkeeps]
  rfl

/-! ## What merging does -/

/-- The slots once one more part is entered: a name goes to the end unless it is there, an
assignment takes the slot of its target away and goes to the end. -/
def Extracted.enter (slots : List Slot) : Extracted → List Slot
  | .unknown name => pushNew slots (.unknown name)
  | .assignment a => slots.filter (·.key ≠ .target a.chain a.property) ++ a.slot?.toList

/-- The table in which slots are kept while parts are merged. -/
def keyed (slots : List Slot) : Table SlotKey Slot := slots.map fun s => (s.key, s)

theorem keys_keyed (slots : List Slot) : Table.keys (keyed slots) = slots.map Slot.key := by
  simp [Table.keys, keyed]

theorem values_keyed (slots : List Slot) : Table.values (keyed slots) = slots := by
  simp [Table.values, keyed, Function.comp_def]

theorem erase_keyed (h : (slots.map Slot.key).Nodup) (k : SlotKey) :
    Table.erase (keyed slots) k = keyed (slots.filter (·.key ≠ k)) := by
  induction slots with
  | nil => rfl
  | cons s slots ih =>
    obtain ⟨hmem, hnodup⟩ := List.nodup_cons.1 h
    by_cases hk : s.key = k
    · -- no other slot has this key
      have hrest : slots.filter (·.key ≠ k) = slots :=
        List.filter_eq_self.2 fun t ht =>
          decide_eq_true fun heq => hmem (List.mem_map.2 ⟨t, ht, heq.trans hk.symm⟩)
      rw [List.filter_cons_of_neg (by simpa using hk), hrest]
      exact if_pos hk
    · rw [List.filter_cons_of_pos (by simpa using hk)]
      exact (if_neg hk).trans (congrArg ((s.key, s) :: ·) (ih hnodup))

/-- A slot whose key is new goes to the end of the table. -/
theorem insert_keyed {s : Slot} {k : SlotKey} (hs : s.key = k) (h : k ∉ slots.map Slot.key) :
    Table.insert (keyed slots) k s = keyed (slots ++ [s]) := by
  rw [Table.insert_of_notMem_keys _ (by rwa [keys_keyed])]
  simp [keyed, hs]

theorem unknown_mem_keys_iff {name : String} :
    SlotKey.unknown name ∈ slots.map Slot.key ↔ .unknown name ∈ slots := by
  simp [Slot.key_eq_unknown_iff]

theorem notMem_keys_filter (slots : List Slot) (k : SlotKey) :
    k ∉ (slots.filter (·.key ≠ k)).map Slot.key := by
  simp

/-- On the tables of slots that are about different things, merging enters one part after
the other. -/
theorem mergeStep_keyed (h : (slots.map Slot.key).Nodup) (p : Extracted) :
    mergeStep (keyed slots) p = keyed (p.enter slots) := by
  cases p with
  | unknown name =>
    rw [mergeStep, Extracted.enter, pushNew]
    by_cases hmem : .unknown name ∈ slots
    · have hne : Table.get? (keyed slots) (.unknown name) ≠ none := fun hnone =>
        Table.get?_eq_none_iff.1 hnone (keys_keyed slots ▸ unknown_mem_keys_iff.2 hmem)
      rw [Table.contains, if_pos (Option.isSome_iff_ne_none.2 hne), if_pos hmem]
    · have hkey : SlotKey.unknown name ∉ slots.map Slot.key :=
        fun hin => hmem (unknown_mem_keys_iff.1 hin)
      have hnone : Table.get? (keyed slots) (.unknown name) = none :=
        Table.get?_eq_none_iff.2 (by rwa [keys_keyed])
      rw [Table.contains, hnone, if_neg (by simp), if_neg hmem]
      exact insert_keyed rfl hkey
  | assignment a =>
    rw [mergeStep, Extracted.enter, Assignment.slot?, erase_keyed h]
    cases a.values with
    | none => simp
    | some values => exact insert_keyed rfl (notMem_keys_filter slots _)

/-- While parts are merged no two slots are about the same. -/
theorem nodup_enter (h : (slots.map Slot.key).Nodup) (p : Extracted) :
    ((p.enter slots).map Slot.key).Nodup := by
  cases p with
  | unknown name =>
    rw [Extracted.enter, pushNew]
    split
    · exact h
    · next hmem =>
      rw [List.map_append, List.map_singleton, ← List.concat_eq_append]
      exact h.concat fun hkey => hmem (unknown_mem_keys_iff.1 hkey)
  | assignment a =>
    have hfilter : ((slots.filter (·.key ≠ .target a.chain a.property)).map Slot.key).Nodup :=
      h.sublist (List.filter_sublist.map Slot.key)
    rw [Extracted.enter]
    cases hslot : a.slot? with
    | none => simpa using hfilter
    | some s =>
      rw [Option.toList_some, List.map_append, List.map_singleton, ← List.concat_eq_append,
        Assignment.key_of_slot? hslot]
      exact hfilter.concat (notMem_keys_filter slots _)

/-- The table is that of the slots so far, which are about different things. -/
theorem foldl_mergeStep (parts : List Extracted) :
    parts.foldl mergeStep [] = keyed (merge parts) ∧ ((merge parts).map Slot.key).Nodup := by
  induction parts using List.reverseRecOn with
  | nil => exact ⟨rfl, List.nodup_nil⟩
  | append_singleton parts p ih =>
    obtain ⟨htable, hnodup⟩ := ih
    have hstep : (parts ++ [p]).foldl mergeStep [] = keyed (p.enter (merge parts)) := by
      rw [List.foldl_append, htable]
      exact mergeStep_keyed hnodup p
    rw [merge, hstep, values_keyed]
    exact ⟨rfl, nodup_enter hnodup p⟩

/-- One more part is entered into the slots of the others. -/
theorem merge_append_singleton (parts : List Extracted) (p : Extracted) :
    merge (parts ++ [p]) = p.enter (merge parts) := by
  obtain ⟨htable, hnodup⟩ := foldl_mergeStep parts
  rw [merge, List.foldl_append, htable]
  exact (congrArg Table.values (mergeStep_keyed hnodup p)).trans (values_keyed _)

/-! ## What is left in the end -/

theorem unknown_mem_merge {name : String} :
    .unknown name ∈ merge parts ↔ .unknown name ∈ parts := by
  induction parts using List.reverseRecOn with
  | nil => simp [merge, Table.values]
  | append_singleton parts p ih =>
    rw [merge_append_singleton]
    cases p with
    | unknown other =>
      rw [Extracted.enter, mem_pushNew, ih, List.mem_append, List.mem_singleton,
        Slot.unknown.injEq, Extracted.unknown.injEq, or_comm]
    | assignment a =>
      have hslot : .unknown name ∉ a.slot?.toList := fun h => by
        simpa [Slot.key] using Assignment.key_of_slot? (Option.mem_toList.1 h)
      rw [Extracted.enter, List.mem_append, or_iff_left hslot, List.mem_filter, ih,
        List.mem_append]
      simp [Slot.key]

/-- Merging leaves the first occurrence of each name, and of the assignments to a target the
last one if it is no removal, where they stand. -/
theorem merge_eq_survivors (parts : List Extracted) : merge parts = survivors parts := by
  induction parts using List.reverseRecOn with
  | nil => rfl
  | append_singleton parts p ih =>
    rw [merge_append_singleton]
    cases p with
    | unknown name =>
      rw [Extracted.enter, survivors_unknown, ← ih, pushNew]
      simp only [unknown_mem_merge]
      split
      · rw [List.append_nil]
      · rfl
    | assignment a => rw [Extracted.enter, survivors_assignment, ih]

/-- Entering a part about one thing does not touch the slots about others. -/
theorem filter_enter_of_key {k : SlotKey} (h : p.key = k) (slots : List Slot) :
    (p.enter slots).filter (·.key ≠ k) = slots.filter (·.key ≠ k) := by
  subst h
  cases p with
  | unknown name =>
    rw [Extracted.enter, pushNew]
    split
    · rfl
    · simp [Slot.key]
  | assignment a =>
    have hslot : a.slot?.toList.filter (·.key ≠ .target a.chain a.property) = [] := by
      refine List.filter_eq_nil_iff.2 fun s hs => ?_
      simp [Assignment.key_of_slot? (Option.mem_toList.1 hs)]
    rw [Extracted.enter, List.filter_append, Extracted.key_assignment, hslot, List.append_nil,
      List.filter_filter]
    simp

/-- The slots about one thing do not matter to a part about another. -/
theorem filter_enter_of_ne {k : SlotKey} (h : p.key ≠ k) (slots : List Slot) :
    (p.enter slots).filter (·.key ≠ k) = p.enter (slots.filter (·.key ≠ k)) := by
  cases p with
  | unknown name =>
    have hslot : ¬ (Slot.unknown name).key = k := h
    rw [Extracted.enter, Extracted.enter, pushNew, pushNew]
    simp only [List.mem_filter, hslot, ne_eq, not_false_eq_true, decide_true, and_true]
    split
    · rfl
    · simp [hslot]
  | assignment a =>
    have hslot : a.slot?.toList.filter (·.key ≠ k) = a.slot?.toList := by
      refine List.filter_eq_self.2 fun s hs => ?_
      rw [Assignment.key_of_slot? (Option.mem_toList.1 hs)]
      simpa using h
    rw [Extracted.enter, Extracted.enter, List.filter_append, hslot, List.filter_comm]

/-- The slots about other things are those of the parts about other things. -/
theorem filter_merge (xs : List Extracted) (k : SlotKey) :
    (merge xs).filter (·.key ≠ k) = merge (xs.filter (·.key ≠ k)) := by
  induction xs using List.reverseRecOn with
  | nil => rfl
  | append_singleton xs p ih =>
    rw [merge_append_singleton, List.filter_append]
    by_cases hk : p.key = k
    · rw [filter_enter_of_key hk, ih, List.filter_cons_of_neg (by simpa using hk),
        List.filter_nil, List.append_nil]
    · rw [filter_enter_of_ne hk, ih, List.filter_cons_of_pos (by simpa using hk),
        List.filter_nil, merge_append_singleton]

/-- A removal takes back all that was said about its target before, and nothing else. -/
theorem merge_removal (xs ys : List Extracted) (chain : List String) (property : String) :
    merge (xs ++ .assignment ⟨chain, property, none⟩ :: ys) =
      merge (xs.filter (·.key ≠ .target chain property) ++ ys) := by
  induction ys using List.reverseRecOn with
  | nil =>
    rw [merge_append_singleton, List.append_nil, ← filter_merge]
    simp [Extracted.enter, Assignment.slot?]
  | append_singleton ys p ih =>
    have hleft : xs ++ .assignment ⟨chain, property, none⟩ :: (ys ++ [p]) =
        (xs ++ .assignment ⟨chain, property, none⟩ :: ys) ++ [p] := by simp
    rw [hleft, ← List.append_assoc, merge_append_singleton, merge_append_singleton, ih]

/-! ## Answers -/

theorem nodup_declarations_merge (parts : List Extracted) :
    ((merge parts).filterMap Slot.declaration?).Nodup := by
  refine List.Nodup.filterMap ?_ (List.Nodup.of_map _ (foldl_mergeStep parts).2)
  intro s t d hs ht
  cases s with
  | unknown name => cases hs
  | declaration c =>
    cases t with
    | unknown name => cases ht
    | declaration c' =>
      obtain rfl := Option.some.inj hs
      exact congrArg Slot.declaration (Option.some.inj ht).symm

namespace Engine

variable {σ : Type}

/-- The last write wins. Merging leaves exactly the survivors, no two of them about the same;
a removal takes back what was said about its target before it and nothing else; whatever
was said before, a later assignment has its slot at its own place. And in every answer of
an engine that a new engine can become, the names that stand in the places of declarations
are different names. -/
theorem last_write_wins :
    (∀ parts, merge parts = survivors parts ∧ ((merge parts).map Slot.key).Nodup) ∧
    (∀ xs ys chain property, merge (xs ++ .assignment ⟨chain, property, none⟩ :: ys) =
      merge (xs.filter (·.key ≠ .target chain property) ++ ys)) ∧
    (∀ xs chain property values,
      merge (xs ++ [.assignment ⟨chain, property, some values⟩]) =
        (merge xs).filter (·.key ≠ .target chain property) ++
          [.declaration ⟨chain, property, values⟩]) ∧
    ∀ {config : EngineConfig σ} {shared : σ} {e₀ e : Engine σ} {warnings : List Warning}
      {events : List (Event σ)}, create config shared = some (.ok (e₀, warnings)) →
      Run e₀ events e → ∀ b items o e', useStyles b items e = some (.ok o, e') →
      ∃ parts m, extractAll b items e = some (.ok parts, m) ∧
        o.names.map some = (merge parts).map (Slot.nameIn? e'.store) ∧
        (ruleNames (merge parts) o.names).Nodup := by
  refine ⟨fun parts => ⟨merge_eq_survivors parts, (foldl_mergeStep parts).2⟩, merge_removal,
    fun xs chain property values => merge_append_singleton xs _, ?_⟩
  intro config shared e₀ e warnings events hcreate hrun b items o e' huse
  obtain ⟨he, -⟩ := hrun.canonical (storeCanonical_of_create hcreate)
  rcases useStyles_eq_some.1 huse with ⟨err, -, herr⟩ | ⟨parts, m, hread, ho, rfl⟩
  · cases herr
  obtain rfl := Except.ok.inj ho
  obtain ⟨hm, -⟩ := storeCanonical_of_fixed (preserves_extractAll _ _ _ _ _ hread) he
  obtain ⟨he', -, hnames⟩ := addSlots_canonical hm
  refine ⟨parts, m, hread, hnames, ?_⟩
  -- the names lead back to the declarations, which are different ones
  have hback := Store.declarations_ruleNames he' hnames
  refine List.Nodup.of_map
    (fun name => ((m.addSlots {} (merge parts)).2.store.get? name).map AtomicRule.declaration) ?_
  rw [hback]
  exact (nodup_declarations_merge parts).map (Option.some_injective _)

/-- A colour is set, taken back and set again, and a name is said twice: the name keeps its
first place, the colour has its last one. -/
theorem last_write_wins_revived :
    let setTo (property text : String) : StyleItem :=
      .definition [(property, .property (.scalar (.text text)))]
    let color (value : Option (List String)) : Extracted := .assignment ⟨[".$$"], "color", value⟩
    let margin : Declaration := ⟨[".$$"], "margin", ["0"]⟩
    let items : List StyleItem := [setTo "color" "red", .shortcut "mystery",
      .definition [("color", .property .removal)], setTo "margin" "0", setTo "color" "blue",
      .shortcut "mystery", setTo "margin" "0"]
    create { draft := { namePrefix := some "x-" } } () = some (.ok (plain, [])) ∧
      Run plain [] plain ∧
      (∃ o e', useStyles 2 items plain = some (.ok o, e') ∧
        o.names = ["mystery", "x-a", "x-b"] ∧
        ∃ parts, merge parts = survivors parts ∧
          merge parts = [.unknown "mystery", .declaration ⟨[".$$"], "color", ["blue"]⟩,
            .declaration margin] ∧
          (ruleNames (merge parts) o.names).Nodup) ∧
      merge ([color (some ["red"]), .unknown "mystery"] ++ color none :: [.unknown "y"]) =
        [.unknown "mystery", .unknown "y"] := by
  intro setTo color margin items
  have hcreate : create { draft := { namePrefix := some "x-" } } () =
      some (.ok (plain, [])) := by rfl
  have hused : (useStyles 2 items plain).map Prod.fst =
      some (.ok ⟨["mystery", "x-a", "x-b"], ["mystery"]⟩) := by rfl
  have hsaid : (extractAll 2 items plain).map Prod.fst = some (.ok
      [color (some ["red"]), .unknown "mystery", color none,
        .assignment ⟨[".$$"], "margin", some ["0"]⟩, color (some ["blue"]), .unknown "mystery",
        .assignment ⟨[".$$"], "margin", some ["0"]⟩]) := by rfl
  obtain ⟨⟨_, e'⟩, huse, rfl⟩ := Option.map_eq_some_iff.1 hused
  have hlast := last_write_wins (σ := Unit)
  refine ⟨hcreate, .nil _, ⟨_, e', huse, rfl, ?_⟩, (hlast.2.1 _ _ _ _).trans (by decide)⟩
  obtain ⟨parts, m, hread, -, hnodup⟩ := hlast.2.2.2 hcreate (.nil _) 2 items _ e' huse
  rw [hread] at hsaid
  obtain rfl := Except.ok.inj (Option.some.inj hsaid)
  exact ⟨_, (hlast.1 _).1, by decide, hnodup⟩

end Engine

end AtomicCss
