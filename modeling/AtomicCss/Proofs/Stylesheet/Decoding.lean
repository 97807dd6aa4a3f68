import AtomicCss.Proofs.Stylesheet.Outline

/-!
# Reading a stylesheet back

The text of a stylesheet is made of selectors and entries with braces and semicolons
around them. Where no selector and no entry is empty or has one of these delimiters in it,
the text can be read back character by character, and what is read is the outline of the
tree: nothing that the text does not show matters, and nothing is ambiguous.

- `Block.read`: the tree that a text shows.
- `Block.Plain`: a tree of selectors and entries without delimiters.
- `Block.read_childrenText`: the text of a plain tree is read as its outline.
- `Stylesheet.text_determines_outline`: so the text of plain rules determines their
  selectors and entries, and so does the text of a preview.
-/

namespace AtomicCss

/-- A text without delimiters. -/
def IsPlain (s : String) : Prop := ∀ c ∈ s.toList, c ≠ '\x7b' ∧ c ≠ '\x7d' ∧ c ≠ ';'

/-- A text without delimiters that is not empty, as selectors and entries are. -/
structure IsWord (s : String) : Prop where
  ne_empty : s ≠ ""
  plain : IsPlain s

-- over the characters of the text: a decision over all characters is out of reach
instance (s : String) : Decidable (IsPlain s) :=
  List.decidableBAll (fun c => c ≠ '\x7b' ∧ c ≠ '\x7d' ∧ c ≠ ';') s.toList

instance (s : String) : Decidable (IsWord s) :=
  decidable_of_iff (s ≠ "" ∧ IsPlain s) ⟨fun h => ⟨h.1, h.2⟩, fun h => ⟨h.ne_empty, h.plain⟩⟩

namespace Block

/-! ## Reading -/

/-- What has been read of a text: the characters behind the last delimiter, the innermost
block that is open, and the blocks around it from the inside out, each under the selector
of the open block in it. -/
structure Reading where
  token : List Char := []
  block : Block := empty
  outer : List (String × Block) := []

namespace Reading

/-- End an entry, if there are characters of one. -/
def endEntry (s : Reading) : Reading :=
  if s.token.isEmpty then s
  else { s with
    token := []
    block := .mk (s.block.bodies ++ [String.ofList s.token]) s.block.children }

/-- Open the block of a selector. -/
def openBlock (s : Reading) : Reading := ⟨[], empty, (String.ofList s.token, s.block) :: s.outer⟩

/-- Close the innermost block, if there is one around it. -/
def closeBlock (s : Reading) : Reading :=
  match s.outer with
  | [] => s
  | (selector, b) :: outer =>
    { s with block := .mk b.bodies (b.children ++ [(selector, s.block)]), outer := outer }

/-- Read a character. -/
def step (s : Reading) (c : Char) : Reading :=
  if c = '\x7b' then s.openBlock
  else if c = ';' then s.endEntry
  else if c = '\x7d' then s.endEntry.closeBlock
  else { s with token := s.token ++ [c] }

/-- Read a text. -/
def run (s : Reading) (cs : List Char) : Reading := cs.foldl step s

end Reading

/-- The tree that a text shows. -/
def read (css : String) : Block := (Reading.run {} css.toList).block

namespace Reading

variable {s : Reading} {word : String}

theorem run_append (s : Reading) (cs cs' : List Char) : s.run (cs ++ cs') = (s.run cs).run cs' :=
  List.foldl_append

theorem run_cons (s : Reading) (c : Char) (cs : List Char) : s.run (c :: cs) = (s.step c).run cs :=
  rfl

/-- Characters that are no delimiters gather. -/
theorem run_plain (h : IsPlain word) :
    s.run word.toList = { s with token := s.token ++ word.toList } := by
  have hrun (cs : List Char) (hcs : ∀ c ∈ cs, c ≠ '\x7b' ∧ c ≠ '\x7d' ∧ c ≠ ';')
      (s : Reading) : s.run cs = { s with token := s.token ++ cs } := by
    induction cs generalizing s with
    | nil => simp [run]
    | cons c cs ih =>
      obtain ⟨hopen, hclose, hend⟩ := hcs c List.mem_cons_self
      rw [run_cons, step, if_neg hopen, if_neg hend, if_neg hclose,
        ih fun c' hc' => hcs c' (List.mem_cons_of_mem c hc')]
      simp
  exact hrun _ h s

theorem toList_ne_nil (h : IsWord word) : word.toList ≠ [] :=
  fun hnil => h.ne_empty (String.toList_inj.1 hnil)

/-- With more bodies and blocks behind those of the innermost open block. -/
def put (s : Reading) (bodies : List String) (children : List (String × Block)) : Reading :=
  { s with block := .mk (s.block.bodies ++ bodies) (s.block.children ++ children) }

theorem put_nil (s : Reading) : s.put [] [] = s := by
  obtain ⟨token, ⟨bodies, children⟩, outer⟩ := s
  simp [put, Block.bodies, Block.children]

theorem put_put (s : Reading) (bodies bodies' : List String)
    (children children' : List (String × Block)) :
    (s.put bodies children).put bodies' children' =
      s.put (bodies ++ bodies') (children ++ children') := by
  simp [put, Block.bodies, Block.children]

theorem endEntry_of_nil (h : s.token = []) : s.endEntry = s := by
  rw [endEntry, h]
  rfl

/-- A word that has gathered becomes an entry. -/
theorem endEntry_run_word (h : IsWord word) (hs : s.token = []) :
    (s.run word.toList).endEntry = s.put [word] [] := by
  have hne : word.toList.isEmpty = false := by simpa using toList_ne_nil h
  rw [run_plain h.plain, hs, List.nil_append, endEntry]
  simp [hne, put, hs]

/-- The last entry of a run ends where the run ends, the others at their semicolons. -/
theorem endEntry_run_entries {entries : List String} (h : ∀ e ∈ entries, IsWord e)
    (hs : s.token = []) :
    (s.run (";".intercalate entries).toList).endEntry = s.put entries [] := by
  rw [String.toList_intercalate]
  induction entries generalizing s with
  | nil => exact (endEntry_of_nil hs).trans s.put_nil.symm
  | cons e entries ih =>
    have he : IsWord e := h e List.mem_cons_self
    cases entries with
    | nil =>
      rw [List.map_singleton, List.intercalate_singleton]
      exact endEntry_run_word he hs
    | cons e' entries =>
      have ih := ih (s := s.put [e] []) (fun e hmem => h e (List.mem_cons_of_mem _ hmem)) hs
      have hsemicolon : (s.run e.toList).step ';' = s.put [e] [] := endEntry_run_word he hs
      rw [List.map_cons, List.map_cons, List.intercalate_cons_cons, run_append, run_append]
      show ((((s.run e.toList).step ';').run _)).endEntry = _
      rw [hsemicolon]
      exact ih.trans (put_put _ _ _ _ _)

end Reading

/-! ## Plain trees -/

/-- A tree in which no selector and no entry is empty or has a delimiter in it. -/
inductive Plain : Block → Prop
  | mk {bodies : List String} {children : List (String × Block)} :
      (∀ e ∈ bodies.flatMap entriesOf, IsWord e) → (∀ c ∈ children, IsWord c.1) →
      (∀ c ∈ children, Plain c.2) → Plain (.mk bodies children)

variable {b : Block}

namespace Reading

variable {s : Reading} {children : List (String × Block)}

/-- Blocks one after the other, each of which is read as its outline. -/
theorem run_childrenChars
    (h : ∀ c ∈ children, ∀ s : Reading, s.token = [] →
      s.run (text c.1 c.2) = s.put [] [(c.1, c.2.outline)])
    (hs : s.token = []) : s.run (childrenChars children) = s.put [] (outlines children) := by
  induction children generalizing s with
  | nil => exact s.put_nil.symm
  | cons c children ih =>
    rw [childrenChars, run_append, h c List.mem_cons_self s hs, outlines,
      ih (fun c' hc' => h c' (List.mem_cons_of_mem c hc')) (s := s.put [] [_]) hs, put_put]
    rfl

/-- The inside of a block, up to the brace that ends it. -/
theorem endEntry_run_inside {bodies : List String}
    (hentries : ∀ e ∈ bodies.flatMap entriesOf, IsWord e)
    (hchildren : ∀ s : Reading, s.token = [] →
      s.run (childrenChars children) = s.put [] (outlines children)) (hs : s.token = []) :
    (s.run (Block.mk bodies children).inside).endEntry =
      s.put (bodies.flatMap entriesOf) (outlines children) := by
  have hrun := endEntry_run_entries hentries hs
  rw [intercalate_flatMap_entriesOf] at hrun
  rw [inside, Block.bodies, Block.children, run_append, run_append]
  cases children with
  | nil => simpa [childrenChars, outlines, run] using hrun
  | cons c children =>
    -- where both bodies and blocks stand, a semicolon ends the last entry
    have hsep : (s.run (";".intercalate bodies).toList).run
        (if bodies.isEmpty || (c :: children).isEmpty then [] else [';']) =
          s.put (bodies.flatMap entriesOf) [] := by
      cases bodies with
      | nil => exact s.put_nil.symm
      | cons body bodies => exact hrun
    rw [hsep, hchildren (s.put _ []) hs, put_put, endEntry_of_nil (s := s.put _ _) hs]
    simp

end Reading

/-- A block of a plain tree is read as its outline. -/
theorem Plain.run_text (h : b.Plain) {selector : String} (hselector : IsWord selector)
    {s : Reading} (hs : s.token = []) :
    s.run (text selector b) = s.put [] [(selector, b.outline)] := by
  induction h generalizing selector s with
  | @mk bodies children hentries hselectors _ ih =>
    have hchildren (s : Reading) (hs : s.token = []) :
        s.run (childrenChars children) = s.put [] (outlines children) :=
      Reading.run_childrenChars (fun c hc s hs => ih c hc (hselectors c hc) hs) hs
    have hopen : (s.run selector.toList).step '\x7b' =
        ⟨[], empty, (selector, s.block) :: s.outer⟩ := by
      rw [Reading.run_plain hselector.plain, hs]
      simp [Reading.step, Reading.openBlock]
    rw [text_eq, Reading.run_append, Reading.run_cons, hopen, Reading.run_append]
    show (Reading.endEntry _).closeBlock = _
    rw [Reading.endEntry_run_inside hentries hchildren rfl]
    simp [Reading.closeBlock, Reading.put, hs, outline, Block.bodies, Block.children, empty]

/-- The text of a plain tree is read as its outline. -/
theorem Plain.read_childrenText (h : b.Plain) (hroot : b.bodies = []) :
    read b.childrenText = b.outline := by
  obtain @⟨bodies, children, -, hselectors, hchildren⟩ := h
  obtain rfl : bodies = [] := hroot
  have hrun := Reading.run_childrenChars (s := {})
    (fun c hc s hs => (hchildren c hc).run_text (hselectors c hc) hs) rfl
  rw [read, childrenText, String.toList_ofList]
  exact congrArg Reading.block hrun

/-! ## Plain lines -/

theorem plain_empty : Plain empty :=
  .mk (fun _ h => nomatch h) (fun _ h => nomatch h) fun _ h => nomatch h

/-- Inserting a plain line keeps a tree plain. -/
theorem Plain.insert (h : b.Plain) {chain : List String} {body : String}
    (hchain : ∀ selector ∈ chain, IsWord selector) (hbody : ∀ e ∈ entriesOf body, IsWord e) :
    (b.insert chain body).Plain := by
  induction chain generalizing b with
  | nil =>
    obtain @⟨bodies, children, hentries, hselectors, hchildren⟩ := h
    refine .mk (fun e he => ?_) hselectors hchildren
    obtain ⟨body', hmem, hin⟩ := List.mem_flatMap.1 he
    rcases mem_pushNew.1 hmem with rfl | hold
    · exact hbody e hin
    · exact hentries e (List.mem_flatMap.2 ⟨body', hold, hin⟩)
  | cons selector chain ih =>
    obtain ⟨hselector, hchain⟩ := List.forall_mem_cons.1 hchain
    obtain @⟨bodies, children, hentries, hselectors, hchildren⟩ := h
    have hchild : Plain ((Table.get? children selector).getD empty) := by
      cases hget : Table.get? children selector with
      | none => exact plain_empty
      | some child => exact hchildren _ (Table.mem_of_get? hget)
    refine .mk hentries (fun c hc => ?_) fun c hc => ?_ <;>
      rcases Table.mem_of_insert hc with rfl | hc
    · exact hselector
    · exact hselectors c hc
    · exact ih hchild hchain
    · exact hchildren c hc

/-- A line of which neither the chain nor the entries are empty, nor any part of them. -/
structure PlainLine (l : List String × List String) : Prop where
  chain_ne_nil : l.1 ≠ []
  chain : ∀ selector ∈ l.1, IsWord selector
  entries_ne_nil : l.2 ≠ []
  entries : ∀ e ∈ l.2, IsWord e

theorem PlainLine.notMem_entry {l : List String × List String} (h : PlainLine l) :
    ∀ e ∈ l.2, ';' ∉ e.toList :=
  fun e he hsemicolon => ((h.entries e he).plain _ hsemicolon).2.2 rfl

section

variable {lines : List (List String × List String)} (h : ∀ l ∈ lines, PlainLine l)

include h

theorem plain_ofLines : (ofLines lines).Plain ∧ (ofLines lines).bodies = [] := by
  induction lines using List.reverseRecOn with
  | nil => exact ⟨plain_empty, rfl⟩
  | append_singleton lines l ih =>
    obtain ⟨hplain, hroot⟩ := ih fun l' hl' => h l' (List.mem_append_left _ hl')
    have hl : PlainLine l := h l (List.mem_append_right _ List.mem_cons_self)
    have hentries : entriesOf (";".intercalate l.2) = l.2 :=
      entriesOf_intercalate hl.entries_ne_nil hl.notMem_entry
    have hlast : ofLines (lines ++ [l]) =
        (ofLines lines).insert l.1 (";".intercalate l.2) := by
      rw [ofLines, List.map_append, List.map_singleton, ofEntries_append_singleton]
      rfl
    rw [hlast]
    refine ⟨hplain.insert hl.chain (hentries.symm ▸ hl.entries), ?_⟩
    obtain ⟨selector, chain, hchain⟩ := List.exists_cons_of_ne_nil hl.chain_ne_nil
    rw [hchain]
    exact hroot

/-- The text of plain lines is read as the outline of their tree, which lists them. -/
theorem read_ofLines :
    read (ofLines lines).childrenText = (ofLines lines).outline ∧
      (ofLines lines).outline.Lists lines := by
  obtain ⟨hplain, hroot⟩ := plain_ofLines h
  exact ⟨hplain.read_childrenText hroot,
    lists_outline_ofLines fun l hl => ⟨(h l hl).entries_ne_nil, (h l hl).notMem_entry⟩⟩

end

end Block

/-! ## Stylesheets -/

namespace Declaration

/-- The property with each value. -/
def entries (d : Declaration) : List String := d.values.map fun v => d.property ++ ":" ++ v

/-- A declaration that is written under a chain of selectors, with no delimiter in any of its
parts and nothing left out. -/
structure PlainUnder (chain : List String) (d : Declaration) : Prop where
  renderable : d.isRenderable = true
  selectors : ∀ selector ∈ chain, IsWord selector
  values_ne_nil : d.values ≠ []
  property : IsPlain d.property
  values : ∀ v ∈ d.values, IsPlain v

instance (chain : List String) (d : Declaration) : Decidable (d.PlainUnder chain) :=
  decidable_of_iff (d.isRenderable = true ∧ (∀ selector ∈ chain, IsWord selector) ∧
      d.values ≠ [] ∧ IsPlain d.property ∧ ∀ v ∈ d.values, IsPlain v)
    ⟨fun ⟨h₁, h₂, h₃, h₄, h₅⟩ => ⟨h₁, h₂, h₃, h₄, h₅⟩,
      fun ⟨h₁, h₂, h₃, h₄, h₅⟩ => ⟨h₁, h₂, h₃, h₄, h₅⟩⟩

theorem PlainUnder.plainLine {d : Declaration} {chain : List String} (h : d.PlainUnder chain)
    (hchain : chain ≠ []) : Block.PlainLine (chain, d.entries) where
  chain_ne_nil := hchain
  chain := h.selectors
  entries_ne_nil := fun hnil => h.values_ne_nil (List.map_eq_nil_iff.1 hnil)
  entries := by
    intro e he
    obtain ⟨v, hv, rfl⟩ := List.mem_map.1 he
    refine ⟨fun hempty => ?_, fun c hc => ?_⟩
    · simpa using congrArg String.toList hempty
    · simp only [String.toList_append, List.mem_append] at hc
      rcases hc with (hc | hc) | hc
      · exact h.property c hc
      · obtain rfl : c = ':' := by simpa using hc
        decide
      · exact h.values v hv c hc

theorem chain_ne_nil_of_isRenderable {d : Declaration} (h : d.isRenderable = true) :
    d.chain ≠ [] := by
  intro hnil
  rw [isRenderable, hnil] at h
  cases h

end Declaration

namespace Stylesheet

open Block

/-- The tree of a preview. -/
def previewTree (declarations : List Declaration) : Block :=
  ofEntries ((declarations.filter (·.isRenderable)).map entryOfDeclaration)

variable {rules : List AtomicRule} {declarations : List Declaration}

theorem tree_eq (h : ∀ r ∈ rules, r.declaration.isRenderable = true) :
    tree rules = ofLines (rules.map fun r => (r.namedChain, r.declaration.entries)) := by
  rw [tree, List.filter_eq_self.2 h, ofLines, List.map_map]
  rfl

theorem previewTree_eq (h : ∀ d ∈ declarations, d.isRenderable = true) :
    previewTree declarations = ofLines (declarations.map fun d => (d.chain, d.entries)) := by
  rw [previewTree, List.filter_eq_self.2 h, ofLines, List.map_map]
  rfl

/-- The text of a stylesheet is read back as the outline of its tree, which lists what the rules
say. -/
theorem read_render (h : ∀ r ∈ rules, r.declaration.PlainUnder r.namedChain) :
    read (render rules) = (tree rules).outline ∧
      (tree rules).outline.Lists (rules.map fun r => (r.namedChain, r.declaration.entries)) := by
  rw [render_eq, tree_eq fun r hr => (h r hr).renderable]
  refine read_ofLines fun l hl => ?_
  obtain ⟨r, hr, rfl⟩ := List.mem_map.1 hl
  have hchain := Declaration.chain_ne_nil_of_isRenderable (h r hr).renderable
  exact (h r hr).plainLine fun hnil => hchain (List.map_eq_nil_iff.1 hnil)

/-- So is the text of a preview, with the chains as they are. -/
theorem read_preview (h : ∀ d ∈ declarations, d.PlainUnder d.chain) :
    read (preview declarations) = (previewTree declarations).outline ∧
      (previewTree declarations).outline.Lists
        (declarations.map fun d => (d.chain, d.entries)) := by
  show read (previewTree declarations).childrenText = _ ∧ _
  rw [previewTree_eq fun d hd => (h d hd).renderable]
  refine read_ofLines fun l hl => ?_
  obtain ⟨d, hd, rfl⟩ := List.mem_map.1 hl
  exact (h d hd).plainLine (Declaration.chain_ne_nil_of_isRenderable (h d hd).renderable)

/-- The text of plain rules is read as the outline of their tree, which lists the selectors
and entries of the rules, so equal texts are those of equal outlines; and likewise the text
of a preview. -/
theorem text_determines_outline :
    (∀ rules : List AtomicRule, (∀ r ∈ rules, r.declaration.PlainUnder r.namedChain) →
      read (render rules) = (tree rules).outline ∧
      (tree rules).outline.Lists (rules.map fun r => (r.namedChain, r.declaration.entries)) ∧
      ∀ rules' : List AtomicRule, (∀ r ∈ rules', r.declaration.PlainUnder r.namedChain) →
        (render rules = render rules' ↔ (tree rules).outline = (tree rules').outline)) ∧
    ∀ ds : List Declaration, (∀ d ∈ ds, d.PlainUnder d.chain) →
      read (preview ds) = (previewTree ds).outline ∧
      (previewTree ds).outline.Lists (ds.map fun d => (d.chain, d.entries)) ∧
      ∀ ds' : List Declaration, (∀ d ∈ ds', d.PlainUnder d.chain) →
        (preview ds = preview ds' ↔ (previewTree ds).outline = (previewTree ds').outline) := by
  -- equal outlines have one text, whatever the trees are
  have htext {b b' : Block} (hb : b.outline = b'.outline) : b.childrenText = b'.childrenText := by
    rw [← b.childrenText_outline, hb, b'.childrenText_outline]
  refine ⟨fun rules h => ?_, fun ds h => ?_⟩
  · obtain ⟨hread, hlists⟩ := read_render h
    refine ⟨hread, hlists, fun rules' h' => ⟨fun heq => ?_, htext⟩⟩
    rw [← hread, heq, (read_render h').1]
  · obtain ⟨hread, hlists⟩ := read_preview h
    refine ⟨hread, hlists, fun ds' h' => ⟨fun heq => ?_, htext⟩⟩
    rw [← hread, heq, (read_preview h').1]

/-- Two rules inside one block and a third one beside it. -/
def nestedRules : List AtomicRule :=
  [⟨"a", ⟨["@media print", ".$$"], "color", ["red", "blue"]⟩⟩,
    ⟨"b", ⟨[".$$"], "color", ["red"]⟩⟩, ⟨"c", ⟨["@media print", ".x .$$"], "top", ["0"]⟩⟩]

theorem text_determines_outline_nested :
    (∀ r ∈ nestedRules, r.declaration.PlainUnder r.namedChain) ∧
    (read (render nestedRules)).selectors = ["@media print", ".b"] ∧
    ((read (render nestedRules)).within ["@media print"]).selectors = [".a", ".x .c"] ∧
    ((read (render nestedRules)).within ["@media print", ".a"]).bodies =
      ["color:red", "color:blue"] ∧
    (∀ d ∈ nestedRules.map (·.declaration), d.PlainUnder d.chain) ∧
    (read (preview (nestedRules.map (·.declaration)))).selectors = ["@media print", ".$$"] := by
  have hrules : ∀ r ∈ nestedRules, r.declaration.PlainUnder r.namedChain := by decide
  have hpreview : ∀ d ∈ nestedRules.map (·.declaration), d.PlainUnder d.chain := by decide
  obtain ⟨hread, hlists, -⟩ := text_determines_outline.1 _ hrules
  obtain ⟨hread', hlists', -⟩ := text_determines_outline.2 _ hpreview
  rw [hread, hread']
  refine ⟨hrules, ?_, ?_, ?_, hpreview, ?_⟩
  · exact (hlists.selectors []).trans (by decide)
  · exact (hlists.selectors ["@media print"]).trans (by decide)
  · exact (hlists.entries ["@media print", ".a"]).trans (by decide)
  · exact (hlists'.selectors []).trans (by decide)

end Stylesheet

end AtomicCss
