import AtomicCss.Proofs.Stylesheet

/-!
# The outline of a stylesheet

What a tree of blocks says is which selectors stand in each block and which entries, both
in order. The bodies of a block are runs of entries: trees that divide the same entries
into different bodies have the same text, and the same outline.

- `Block.entriesOf`: the entries of a body.
- `Block.outline`: the tree in which each entry is a body of its own.
- `Block.childrenText_outline`: a tree has the text of its outline.
- `Block.within`: the block at the end of a path.
- `Block.Lists`: a tree with the selectors and the entries of given lines, in the order in
  which they first occur.
- `Block.lists_outline_ofLines`: the outline of a tree lists the lines that were entered.
-/

namespace AtomicCss

namespace Block

variable {b : Block} {path : List String}

/-- What holds of a block if it holds of the blocks inside holds of every block. -/
@[elab_as_elim]
theorem induct {motive : Block → Prop}
    (mk : ∀ bodies children, (∀ c ∈ children, motive c.2) → motive (.mk bodies children))
    (b : Block) : motive b :=
  @Block.rec motive (fun children => ∀ c ∈ children, motive c.2) (fun c => motive c.2) mk
    (fun _ h => nomatch h) (fun _ _ hhead htail => List.forall_mem_cons.2 ⟨hhead, htail⟩)
    (fun _ _ h => h) b

/-! ## Entries -/

/-- The entries of a body: its parts between semicolons. -/
def entriesOf (body : String) : List String :=
  (body.toList.splitOn ';').map String.ofList

mutual

/-- The tree in which each entry is a body of its own. -/
def outline : Block → Block
  | .mk bodies children => .mk (bodies.flatMap entriesOf) (outlines children)
termination_by structural b => b

/-- The outlines of the blocks inside a block. -/
def outlines : List (String × Block) → List (String × Block)
  | [] => []
  | (selector, b) :: rest => (selector, outline b) :: outlines rest
termination_by structural cs => cs

end

theorem outlines_eq_map (children : List (String × Block)) :
    outlines children = children.map fun c => (c.1, c.2.outline) := by
  induction children with
  | nil => rfl
  | cons c children ih => rw [outlines, ih, List.map_cons]

theorem entriesOf_ne_nil (body : String) : entriesOf body ≠ [] :=
  fun h => List.splitOn_ne_nil _ _ (List.map_eq_nil_iff.1 h)

theorem isEmpty_flatMap_entriesOf (bodies : List String) :
    (bodies.flatMap entriesOf).isEmpty = bodies.isEmpty := by
  cases bodies with
  | nil => rfl
  | cons body bodies => simp [entriesOf_ne_nil]

/-- Runs of entries that are joined are the entries joined. -/
theorem intercalate_append {α : Type} {sep : List α} {xs ys : List (List α)} (hxs : xs ≠ [])
    (hys : ys ≠ []) :
    sep.intercalate (xs ++ ys) = sep.intercalate xs ++ sep ++ sep.intercalate ys := by
  induction xs with
  | nil => exact absurd rfl hxs
  | cons x xs ih =>
    cases xs with
    | nil => simp [List.intercalate_cons_of_ne_nil hys]
    | cons x' xs =>
      have ih := ih (List.cons_ne_nil _ _)
      simp only [List.cons_append, List.intercalate_cons_cons, List.append_assoc] at ih ⊢
      rw [ih]

/-- A body is the text of its entries. -/
theorem intercalate_entriesOf (body : String) : ";".intercalate (entriesOf body) = body := by
  have htoList : (entriesOf body).map String.toList = body.toList.splitOn ';' := by
    simp [entriesOf, Function.comp_def]
  rw [← String.toList_inj, String.toList_intercalate, htoList]
  exact List.intercalate_splitOn ';'

theorem intercalate_flatMap_entriesOf (bodies : List String) :
    ";".intercalate (bodies.flatMap entriesOf) = ";".intercalate bodies := by
  induction bodies with
  | nil => rfl
  | cons body bodies ih =>
    cases bodies with
    | nil => simp [intercalate_entriesOf]
    | cons body' bodies =>
      have hrest : (body' :: bodies).flatMap entriesOf ≠ [] := by simp [entriesOf_ne_nil]
      rw [← String.toList_inj, String.toList_intercalate, String.toList_intercalate] at ih ⊢
      rw [List.flatMap_cons, List.map_append, intercalate_append
        (by simpa using entriesOf_ne_nil body) (by simpa using hrest), ih,
        ← String.toList_intercalate, intercalate_entriesOf]
      exact List.intercalate_cons_cons.symm

theorem childrenChars_outlines {children : List (String × Block)}
    (h : ∀ c ∈ children, ∀ selector, text selector c.2.outline = text selector c.2) :
    childrenChars (outlines children) = childrenChars children := by
  induction children with
  | nil => rfl
  | cons c children ih =>
    rw [outlines, childrenChars, childrenChars, h c List.mem_cons_self,
      ih fun c' hc' => h c' (List.mem_cons_of_mem c hc')]

/-- A block has the text of its outline. -/
theorem text_outline (selector : String) (b : Block) :
    text selector b.outline = text selector b := by
  induction b using induct generalizing selector with
  | mk bodies children ih =>
    have hchildren := childrenChars_outlines fun c hc selector => ih c hc selector
    have hempty : (outlines children).isEmpty = children.isEmpty := by
      rw [outlines_eq_map, List.isEmpty_map]
    rw [outline, text, text, intercalate_flatMap_entriesOf, isEmpty_flatMap_entriesOf, hempty,
      hchildren]

theorem childrenText_outline (b : Block) : b.outline.childrenText = b.childrenText := by
  obtain ⟨bodies, children⟩ := b
  have hchildren : childrenChars (outlines children) = childrenChars children :=
    childrenChars_outlines fun c _ selector => text_outline selector c.2
  exact congrArg String.ofList hchildren

/-! ## Paths -/

/-- The block at the end of a path, with nothing in it if there is none. -/
def within : (path : List String) → Block → Block
  | [], b => b
  | selector :: path, b => within path ((Table.get? b.children selector).getD empty)

/-- The selectors of the blocks inside a block. -/
def selectors (b : Block) : List String := Table.keys b.children

/-- The selector of a chain that follows a path. -/
def next? : (path chain : List String) → Option String
  | [], selector :: _ => some selector
  | selector :: path, selector' :: chain => if selector = selector' then next? path chain else none
  | _, _ => none

theorem within_empty (path : List String) : empty.within path = empty := by
  induction path with
  | nil => rfl
  | cons selector path ih => exact ih

/-- Entering a body adds it at the end of its chain, and nowhere else. -/
theorem bodies_within_insert (chain : List String) (body : String) :
    ((b.insert chain body).within path).bodies =
      if path = chain then pushNew (b.within path).bodies body else (b.within path).bodies := by
  induction chain generalizing path b with
  | nil => cases path <;> rfl
  | cons selector chain ih =>
    cases path with
    | nil => rfl
    | cons selector' path =>
      rw [insert, within, within, children]
      by_cases hselector : selector' = selector
      · subst hselector
        rw [Table.get?_insert_self, Option.getD_some, ih]
        simp
      · rw [Table.get?_insert_of_ne _ _ hselector, if_neg fun h => hselector (List.cons.inj h).1]

/-- And it adds the selectors of its chain, each in the block that the chain leads to. -/
theorem selectors_within_insert (chain : List String) (body : String) :
    ((b.insert chain body).within path).selectors =
      match next? path chain with
      | some selector => pushNew (b.within path).selectors selector
      | none => (b.within path).selectors := by
  induction chain generalizing path b with
  | nil => cases path <;> rfl
  | cons selector chain ih =>
    cases path with
    | nil => exact Table.keys_insert _ _ _
    | cons selector' path =>
      rw [insert, within, within, children, next?]
      by_cases hselector : selector' = selector
      · subst hselector
        rw [Table.get?_insert_self, Option.getD_some, ih, if_pos rfl]
      · rw [Table.get?_insert_of_ne _ _ hselector, if_neg hselector]

section

variable {entries : List (List String × String)}

theorem ofEntries_append_singleton (e : List String × String) :
    ofEntries (entries ++ [e]) = (ofEntries entries).insert e.1 e.2 := by
  rw [ofEntries, List.foldl_append]
  rfl

/-- The bodies of a block are those that were entered there, in order. -/
theorem bodies_within_ofEntries :
    ((ofEntries entries).within path).bodies =
      distinct ((entries.filter (·.1 = path)).map Prod.snd) := by
  induction entries using List.reverseRecOn with
  | nil => exact congrArg bodies (within_empty path)
  | append_singleton entries e ih =>
    rw [ofEntries_append_singleton, bodies_within_insert, ih, List.filter_append]
    by_cases hpath : path = e.1
    · simp [hpath, distinct_append_singleton]
    · simp [hpath, Ne.symm hpath]

/-- The selectors inside a block are those that chains go on with there, in order. -/
theorem selectors_within_ofEntries :
    ((ofEntries entries).within path).selectors =
      distinct (entries.filterMap fun e => next? path e.1) := by
  induction entries using List.reverseRecOn with
  | nil => exact congrArg selectors (within_empty path)
  | append_singleton entries e ih =>
    rw [ofEntries_append_singleton, selectors_within_insert, ih, List.filterMap_append]
    cases hnext : next? path e.1 with
    | none => simp [hnext]
    | some selector => simp [hnext, distinct_append_singleton]

end

theorem get?_outlines (children : List (String × Block)) (selector : String) :
    Table.get? (outlines children) selector = (Table.get? children selector).map outline := by
  induction children with
  | nil => rfl
  | cons c children ih =>
    rw [outlines, Table.get?, Table.get?, ih]
    split <;> rfl

theorem within_outline (path : List String) (b : Block) :
    b.outline.within path = (b.within path).outline := by
  induction path generalizing b with
  | nil => rfl
  | cons selector path ih =>
    obtain ⟨bodies, children⟩ := b
    rw [outline, within, within, Block.children, Block.children, get?_outlines, ← ih]
    cases Table.get? children selector <;> rfl

/-! ## Lines -/

/-- A tree whose selectors and entries are those of lines, each a chain with its entries:
in each block the selectors that chains go on with, and the entries of the different lines
of its path, in the order of first occurrence. -/
structure Lists (lines : List (List String × List String)) (b : Block) : Prop where
  selectors : ∀ path,
    (b.within path).selectors = distinct (lines.filterMap fun l => next? path l.1)
  entries : ∀ path,
    (b.within path).bodies = (distinct ((lines.filter (·.1 = path)).map Prod.snd)).flatten

/-- The tree of lines. -/
def ofLines (lines : List (List String × List String)) : Block :=
  ofEntries (lines.map fun l => (l.1, ";".intercalate l.2))

theorem selectors_outline (b : Block) : b.outline.selectors = b.selectors := by
  obtain ⟨bodies, children⟩ := b
  show Table.keys (outlines children) = Table.keys children
  rw [outlines_eq_map, Table.keys, Table.keys, List.map_map]
  rfl

theorem bodies_outline (b : Block) : b.outline.bodies = b.bodies.flatMap entriesOf := by
  obtain ⟨bodies, children⟩ := b
  rfl

/-- Entries without semicolons can be told apart in a body. -/
theorem entriesOf_intercalate {entries : List String} (hne : entries ≠ [])
    (h : ∀ e ∈ entries, ';' ∉ e.toList) : entriesOf (";".intercalate entries) = entries := by
  have hsplit : (";".intercalate entries).toList.splitOn ';' = entries.map String.toList := by
    rw [String.toList_intercalate]
    exact List.splitOn_intercalate ';' (by simpa using h) (by simpa using hne)
  rw [entriesOf, hsplit]
  simp [Function.comp_def]

theorem lists_outline_ofLines {lines : List (List String × List String)}
    (h : ∀ l ∈ lines, l.2 ≠ [] ∧ ∀ e ∈ l.2, ';' ∉ e.toList) :
    (ofLines lines).outline.Lists lines := by
  refine ⟨fun path => ?_, fun path => ?_⟩
  · rw [within_outline, selectors_outline, ofLines, selectors_within_ofEntries,
      List.filterMap_map]
    rfl
  · have hbodies : ((lines.map fun l => (l.1, ";".intercalate l.2)).filter (·.1 = path)).map
        Prod.snd = ((lines.filter (·.1 = path)).map Prod.snd).map (";".intercalate ·) := by
      simp [List.filter_map, Function.comp_def]
    have hentries : ∀ es ∈ (lines.filter (·.1 = path)).map Prod.snd,
        entriesOf (";".intercalate es) = es := by
      intro es hes
      obtain ⟨l, hl, rfl⟩ := List.mem_map.1 hes
      obtain ⟨hne, hplain⟩ := h l (List.mem_filter.1 hl).1
      exact entriesOf_intercalate hne hplain
    rw [within_outline, bodies_outline, ofLines, bodies_within_ofEntries, hbodies, distinct_map,
      List.flatMap_map, List.flatMap_def]
    · congr 1
      rw [List.map_congr_left fun es hes => hentries es (mem_distinct.1 hes)]
      exact List.map_id _
    · intro es hes es' hes' heq
      rw [← hentries es hes, ← hentries es' hes', heq]

end Block

end AtomicCss
