import AtomicCss.Proofs.Plugin.Preflights
import AtomicCss.Proofs.Variables.Leaves
import Mathlib.Data.List.Forall2
import Mathlib.Data.List.Lex

/-!
# Nested variables become flat ones

The keys on the way to a leaf are joined by hyphens. Where no key has a hyphen, the name of a
variable tells the keys, and different leaves have different names.

- `Variables.Plain`: a tree with such keys, and with leaves that can be declared.
- `Variables.variableName`, `Variables.variableName_inj`: the name for some keys, which it tells.
- `Variables.Plain.place_unique`: the keys tell the place.
- `Plugin.variables_flattened`: the variables of a plain tree.
-/

namespace AtomicCss

open Json

variable {σ : Type}

namespace Variables

variable {namePrefix path : String} {keys keys' : List String} {j inner inner' : Json}
  {place place' : List Nat} {fields : List (String × Json)} {ls : List Located}

/-! ## Plain trees -/

/-- A key that can be told from a path: it has a character, and no hyphen. -/
def PlainKey (key : String) : Prop := key ≠ "" ∧ '-' ∉ key.toList

/-- A tree in which all keys are plain, none of them twice in an object, and all leaves are text,
numbers or nulls. -/
structure Plain (j : Json) : Prop where
  keys : ∀ {place keys inner}, j.At place keys inner → ∀ key ∈ keys, PlainKey key
  leaves : ∀ {place keys inner}, j.At place keys inner → inner.isLeaf = true →
    isSupported inner = true
  unrepeated : ∀ {place keys fields}, j.At place keys (.object fields) → (Table.keys fields).Nodup

theorem plain_of_isLeaf (hleaf : j.isLeaf = true) (h : isSupported j = true) : Plain j where
  keys := by
    intro _ _ _ hat
    obtain ⟨-, rfl, -⟩ := (at_iff_of_isLeaf hleaf).1 hat
    exact nofun
  leaves := by
    intro _ _ _ hat _
    obtain ⟨-, -, rfl⟩ := (at_iff_of_isLeaf hleaf).1 hat
    exact h
  unrepeated := by
    intro _ _ _ hat
    obtain ⟨-, -, rfl⟩ := (at_iff_of_isLeaf hleaf).1 hat
    cases hleaf

/-- An object is plain if its fields are. -/
theorem plain_object_iff : Plain (.object fields) ↔
    (Table.keys fields).Nodup ∧ ∀ e ∈ fields, PlainKey e.1 ∧ Plain e.2 := by
  constructor
  · intro h
    refine ⟨h.unrepeated (.here _), fun e he => ?_⟩
    obtain ⟨i, hi⟩ := List.mem_iff_getElem?.1 he
    exact ⟨h.keys (.inside hi (.here _)) _ (.head _),
      ⟨fun hat key hkey => h.keys (.inside hi hat) key (.tail _ hkey),
        fun hat => h.leaves (.inside hi hat), fun hat => h.unrepeated (.inside hi hat)⟩⟩
  · rintro ⟨hnodup, hfields⟩
    refine ⟨?_, ?_, ?_⟩
    · rintro _ _ _ (_ | ⟨hi, hat⟩)
      · exact nofun
      · obtain ⟨hkey, hplain⟩ := hfields _ (List.mem_of_getElem? hi)
        exact List.forall_mem_cons.2 ⟨hkey, hplain.keys hat⟩
    · rintro _ _ _ (_ | ⟨hi, hat⟩) hleaf
      · cases hleaf
      · exact (hfields _ (List.mem_of_getElem? hi)).2.leaves hat hleaf
    · rintro _ _ _ (_ | ⟨hi, hat⟩)
      · exact hnodup
      · exact (hfields _ (List.mem_of_getElem? hi)).2.unrepeated hat

/-- In a plain tree the keys tell the place. -/
theorem Plain.place_unique (h : Plain j) (hat : j.At place keys inner)
    (hat' : j.At place' keys inner') : place = place' ∧ inner = inner' := by
  induction hat generalizing place' with
  | here j =>
    cases hat'
    exact ⟨rfl, rfl⟩
  | @inside fields i key j inner place keys hi hat ih =>
    obtain ⟨hnodup, hfields⟩ := plain_object_iff.1 h
    cases hat' with
    | @inside _ i' _ j' _ place' _ hi' hat' =>
      -- the key stands in the object only once
      have hkey : (Table.keys fields)[i]? = some key := by simp [Table.keys, hi]
      have hkey' : (Table.keys fields)[i']? = some key := by simp [Table.keys, hi']
      obtain rfl : i = i' :=
        (List.getElem?_inj (List.getElem?_eq_some_iff.1 hkey).1 hnodup).1 (hkey.trans hkey'.symm)
      obtain rfl : j = j' := congrArg Prod.snd (Option.some.inj (hi.symm.trans hi'))
      obtain ⟨rfl, rfl⟩ := ih (hfields _ (List.mem_of_getElem? hi)).2 hat'
      exact ⟨rfl, rfl⟩

/-! ## Names -/

/-- The name of the variable for the keys that lead to it. -/
def variableName (namePrefix : String) (keys : List String) : String :=
  "--" ++ namePrefix ++ "-".intercalate keys

theorem foldl_joinPath (hpath : path ≠ "") :
    keys.foldl joinPath path = "-".intercalate (path :: keys) := by
  induction keys generalizing path with
  | nil => simp
  | cons key keys ih =>
    have hjoin : joinPath path key = path ++ "-" ++ key := if_neg hpath
    rw [List.foldl_cons, hjoin, ih (by simp)]
    cases keys <;> simp [String.append_assoc]

/-- The path of plain keys: the keys, joined by hyphens. -/
theorem foldl_joinPath_empty (h : ∀ key ∈ keys, PlainKey key) :
    keys.foldl joinPath "" = "-".intercalate keys := by
  cases keys with
  | nil => rfl
  | cons key keys => exact foldl_joinPath (h key (.head _)).1

/-- The path of plain keys does not look like a name. -/
theorem propertyOf_intercalate (h : ∀ key ∈ keys, PlainKey key) :
    propertyOf namePrefix ("-".intercalate keys) = variableName namePrefix keys := by
  unfold propertyOf
  split
  · next hyphens =>
    cases keys with
    | nil => cases hyphens
    | cons key keys =>
      -- the path begins as its first key does
      obtain ⟨hne, hhyphen⟩ := h key (.head _)
      obtain ⟨c, cs, hcs⟩ := List.exists_cons_of_ne_nil (mt String.toList_eq_nil_iff.1 hne)
      rw [String.toList_intercalate, List.map_cons, hcs] at hyphens
      have hc : c = '-' := by
        cases hmap : keys.map String.toList <;> simp_all
      exact absurd (hc ▸ hcs ▸ List.mem_cons_self) hhyphen
  · rfl

/-- A path of plain keys falls apart into the keys. -/
theorem splitOn_intercalate (h : ∀ key ∈ keys, PlainKey key) (hne : keys ≠ []) :
    ("-".intercalate keys).toList.splitOn '-' = keys.map String.toList := by
  rw [String.toList_intercalate]
  refine List.splitOn_intercalate '-' (fun text htext => ?_) (by simpa using hne)
  obtain ⟨key, hkey, rfl⟩ := List.mem_map.1 htext
  exact (h key hkey).2

theorem intercalate_ne_empty (h : ∀ key ∈ keys, PlainKey key) (hne : keys ≠ []) :
    "-".intercalate keys ≠ "" := by
  intro hempty
  -- no character of the first key can be left
  have hsplit := splitOn_intercalate h hne
  cases keys with
  | nil => exact hne rfl
  | cons key keys =>
    rw [hempty] at hsplit
    obtain ⟨hkey, -⟩ := List.cons.inj hsplit
    exact (h key (.head _)).1 (String.toList_eq_nil_iff.1 hkey.symm)

/-- The name of a variable tells the keys. -/
theorem variableName_inj (h : ∀ key ∈ keys, PlainKey key) (h' : ∀ key ∈ keys', PlainKey key)
    (heq : variableName namePrefix keys = variableName namePrefix keys') : keys = keys' := by
  have hpath : "-".intercalate keys = "-".intercalate keys' := (String.append_right_inj _).1 heq
  by_cases hnil : keys = []
  · subst hnil
    by_contra hne
    exact intercalate_ne_empty h' (Ne.symm hne) hpath.symm
  · have hnil' : keys' ≠ [] := by
      rintro rfl
      exact intercalate_ne_empty h hnil hpath
    have hsplit := splitOn_intercalate h hnil
    rw [hpath, splitOn_intercalate h' hnil'] at hsplit
    exact List.map_injective_iff.2 (fun _ _ => String.toList_inj.1) hsplit.symm

/-! ## The declarations of leaves -/

/-- The leaves that declare something, in order, with what they declare: the name for their keys,
and their text. -/
theorem forall₂_declares (namePrefix : String) (hkeys : ∀ l ∈ ls, ∀ key ∈ l.keys, PlainKey key) :
    List.Forall₂ (fun l d => d.1 = variableName namePrefix l.keys ∧ text? l.value = some d.2)
      (ls.filter fun l => (text? l.value).isSome)
      (ls.filterMap (declares namePrefix "")) := by
  induction ls with
  | nil => exact .nil
  | cons l ls ih =>
    obtain ⟨hl, hls⟩ := List.forall_mem_cons.1 hkeys
    rw [List.filterMap_cons, declares, pathOf, foldl_joinPath_empty hl, propertyOf_intercalate hl]
    cases htext : text? l.value with
    | none =>
      rw [List.filter_cons_of_neg (by simp [htext])]
      exact ih hls
    | some text =>
      rw [List.filter_cons_of_pos (by simp [htext])]
      exact .cons ⟨rfl, htext⟩ (ih hls)

theorem map_fst_declares (namePrefix : String) (hkeys : ∀ l ∈ ls, ∀ key ∈ l.keys, PlainKey key) :
    (ls.filterMap (declares namePrefix "")).map Prod.fst =
      (ls.filter fun l => (text? l.value).isSome).map fun l => variableName namePrefix l.keys := by
  rw [← List.forall₂_eq_eq_eq, List.forall₂_map_left_iff, List.forall₂_map_right_iff]
  exact (forall₂_declares namePrefix hkeys).flip.imp fun _ _ h => h.1

/-- Leaves of a plain tree that stand at different places have different names. -/
theorem Plain.nodup_names (h : Plain j) (hls : ls.Sublist j.leaves) :
    (ls.map fun l => variableName namePrefix l.keys).Nodup := by
  rw [List.Nodup, List.pairwise_map]
  refine List.Pairwise.imp_of_mem ?_ ((pairwise_leaves j).sublist hls)
  intro l l' hl hl' hlt hname
  obtain ⟨hat, -⟩ := mem_leaves.1 (hls.subset hl)
  obtain ⟨hat', -⟩ := mem_leaves.1 (hls.subset hl')
  rw [← variableName_inj (h.keys hat) (h.keys hat') hname] at hat'
  exact absurd ((h.place_unique hat hat').1 ▸ hlt) (lt_irrefl _)

theorem text?_isSome_iff (h : isSupported j = true) : (text? j).isSome = true ↔ j ≠ .null := by
  cases j <;> simp_all [isSupported, text?]

end Variables

namespace Plugin

open Variables

/-- A plain tree of variables becomes a flat list. The leaves other than nulls, in the order of
their places, are declared one for one, with their text, under the name for the keys that
lead to them. No two of the names are the same, and each tells the keys it is made of. The
plugin adds one block that lists what is declared, or nothing if there is nothing. -/
theorem variables_flattened {c : Settling} {s : σ} {fields : List (String × Json)}
    (hentry : Table.get? c.1.extra "variables" = some (.object fields))
    (hplain : Plain (.object fields)) :
    ∃ (ls : List Located) (declared : List (String × String)),
      (∀ l, l ∈ ls ↔ (Json.object fields).At l.place l.keys l.value ∧
        l.value.isLeaf = true ∧ l.value ≠ .null) ∧
      (ls.Pairwise fun l l' => l.place < l'.place) ∧
      List.Forall₂ (fun l d => d.1 = variableName c.1.namePrefix l.keys ∧
        text? l.value = some d.2) ls declared ∧
      (declared.map Prod.fst).Nodup ∧
      (∀ keys keys', (∀ key ∈ keys, PlainKey key) → (∀ key ∈ keys', PlainKey key) →
        variableName c.1.namePrefix keys = variableName c.1.namePrefix keys' → keys = keys') ∧
      ∀ old, (Plugin.variables old).configSettled c s =
        some (.ok (some (c.1.addPreflights (if declared = [] then [] else
          [.css (":root\x7b" ++ ";".intercalate (declared.map fun d => d.1 ++ ":" ++ d.2)
            ++ "\x7d")]), c.2)), .variables declared, s) := by
  have hkeys : ∀ l ∈ (Json.object fields).leaves, ∀ key ∈ l.keys, PlainKey key :=
    fun l hl => hplain.keys (mem_leaves.1 hl).1
  have hsupported : ∀ l ∈ (Json.object fields).leaves, isSupported l.value = true := fun l hl =>
    hplain.leaves (mem_leaves.1 hl).1 (mem_leaves.1 hl).2
  have hsublist := List.filter_sublist (p := fun l : Located => (text? l.value).isSome)
    (l := (Json.object fields).leaves)
  refine ⟨_, _, fun l => ?_, (pairwise_leaves _).sublist hsublist,
    forall₂_declares c.1.namePrefix hkeys, ?_, fun keys keys' => variableName_inj, fun old => ?_⟩
  · rw [List.mem_filter, mem_leaves, and_assoc]
    refine and_congr_right fun hat => and_congr_right fun hleaf => ?_
    exact text?_isSome_iff (hplain.leaves hat hleaf)
  · rw [map_fst_declares c.1.namePrefix hkeys]
    exact hplain.nodup_names hsublist
  · have hcollect : collectEntry c.1 = ((Json.object fields).leaves.filterMap
        (declares c.1.namePrefix ""), .ok ()) := by
      rw [collectEntry, hentry]
      exact (collect_eq _).trans (declare_of_supported hsupported)
    rw [configSettled_variables_eq, hcollect]
    rfl

/-- Two variables, one of them in a group, in which another leaf is a null. -/
theorem variables_flattened_color :
    let fields : List (String × Json) :=
      [("color", .object [("primary", .string "red"), ("muted", .null)]), ("gap", .int 4)]
    let c : Config := { namePrefix := "ui-", extra := [("variables", .object fields)] }
    let declared := [("--ui-color-primary", "red"), ("--ui-gap", "4")]
    Table.get? c.extra "variables" = some (.object fields) ∧ Plain (.object fields) ∧
    (Plugin.variables [] : Plugin Unit).configSettled (c, []) () =
      some (.ok (some (c.addPreflights [.css ":root\x7b--ui-color-primary:red;--ui-gap:4\x7d"],
        [])), .variables declared, ()) ∧
    (∃ ls : List Located,
      (∀ l, l ∈ ls ↔ (Json.object fields).At l.place l.keys l.value ∧
        l.value.isLeaf = true ∧ l.value ≠ .null) ∧
      List.Forall₂ (fun l d => d.1 = variableName "ui-" l.keys ∧ text? l.value = some d.2)
        ls declared) ∧
    (declared.map Prod.fst).Nodup := by
  intro fields c declared
  have hplain : Plain (.object fields) := by
    have hred : Plain (.string "red") := plain_of_isLeaf rfl rfl
    have hnull : Plain .null := plain_of_isLeaf rfl rfl
    have hfour : Plain (.int 4) := plain_of_isLeaf rfl rfl
    have hcolor : Plain (.object [("primary", .string "red"), ("muted", .null)]) :=
      plain_object_iff.2 ⟨by decide, by simp [PlainKey, hred, hnull]⟩
    exact plain_object_iff.2 ⟨by decide, by simp [fields, PlainKey, hcolor, hfour]⟩
  have hrun : (Plugin.variables [] : Plugin Unit).configSettled (c, []) () =
      some (.ok (some (c.addPreflights [.css ":root\x7b--ui-color-primary:red;--ui-gap:4\x7d"],
        [])), .variables declared, ()) := by rfl
  obtain ⟨ls, declared', hls, -, hdeclared, hnodup, -, hhook⟩ :=
    variables_flattened (c := (c, [])) (s := ()) rfl hplain
  have hplugin := (Prod.mk.inj (Option.some.inj ((hhook []).symm.trans hrun))).2
  obtain rfl : declared' = declared := Plugin.variables.inj (Prod.mk.inj hplugin).1
  exact ⟨rfl, hplain, hrun, ⟨ls, hls, hdeclared⟩, hnodup⟩

end Plugin

end AtomicCss
