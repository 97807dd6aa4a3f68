import AtomicCss.Proofs.Distinct
import AtomicCss.Stylesheet

/-!
# What a stylesheet holds

A stylesheet is the text of a tree of blocks. Nothing that is entered into the tree
gets lost and nothing else gets in: it holds a body at the end of a path exactly if the
body was entered there. What the tree holds can be read in its text, within the braces
of its path.

- `Block.Holds`: a body stands in a block at the end of a path.
- `Block.holds_ofEntries_iff`: a tree holds what was entered.
- `Block.Shows`: a text has a body within nested braces.
- `Block.Holds.shows`: what a tree holds stands in its text.
- `Stylesheet.tree`: the tree of a list of rules, whose text is the stylesheet.
- `Stylesheet.shownIn_render`: every rule that can be written can be read there.
-/

namespace AtomicCss

namespace Block

variable {body body' : String} {path chain : List String} {b : Block}

/-! ## What a tree holds -/

/-- The body stands in the block at the end of the path. -/
def Holds (body : String) : (path : List String) → Block → Prop
  | [], b => body ∈ b.bodies
  | selector :: path, b =>
    ∃ child, Table.get? b.children selector = some child ∧ Holds body path child

theorem not_holds_empty : ¬ Holds body path empty := by
  cases path with
  | nil => exact List.not_mem_nil
  | cons selector path => exact fun ⟨_, h, _⟩ => nomatch h

/-- The block that insertion goes on with holds what stood below the selector. -/
theorem holds_getD_iff {selector : String} :
    Holds body path ((Table.get? b.children selector).getD empty) ↔
      Holds body (selector :: path) b := by
  cases h : Table.get? b.children selector with
  | none => simp [Holds, h, not_holds_empty]
  | some child => simp [Holds, h]

/-- Entering a body adds it at the end of its chain and changes nothing else. -/
theorem holds_insert_iff :
    Holds body path (b.insert chain body') ↔
      (path = chain ∧ body = body') ∨ Holds body path b := by
  induction chain generalizing path b with
  | nil =>
    rw [insert]
    cases path with
    | nil => simp [Holds, bodies, mem_pushNew]
    | cons selector path => simp [Holds, children]
  | cons selector chain ih =>
    rw [insert]
    cases path with
    | nil => simp [Holds, bodies]
    | cons selector' path =>
      by_cases hselector : selector' = selector
      · subst hselector
        -- the block below the selector is the one that the body goes into
        have hchild : Holds body path
              (insert chain body' ((Table.get? b.children selector').getD empty)) ↔
            (path = chain ∧ body = body') ∨ Holds body (selector' :: path) b := by
          rw [ih, holds_getD_iff]
        simpa [Holds, children, Table.get?_insert_self] using hchild
      · have hget := Table.get?_insert_of_ne b.children
          (insert chain body' ((Table.get? b.children selector).getD empty)) hselector
        simp only [Holds, children] at hget ⊢
        simp [hget, hselector]

/-- A tree holds exactly the bodies that were entered. -/
theorem holds_ofEntries_iff {entries : List (List String × String)} :
    Holds body path (ofEntries entries) ↔ (path, body) ∈ entries := by
  have hfoldl (b : Block) : Holds body path (entries.foldl (fun b e => b.insert e.1 e.2) b) ↔
      (path, body) ∈ entries ∨ Holds body path b := by
    induction entries generalizing b with
    | nil => simp
    | cons e entries ih =>
      rw [List.foldl_cons, ih, holds_insert_iff, List.mem_cons, Prod.ext_iff, or_assoc]
      exact or_left_comm
  rw [ofEntries, hfoldl, or_iff_left not_holds_empty]

/-! ## What its text shows -/

/-- The text between the braces of a block. -/
def inside (b : Block) : List Char :=
  (";".intercalate b.bodies).toList
    ++ ((if b.bodies.isEmpty || b.children.isEmpty then [] else [';'])
      ++ childrenChars b.children)

/-- The text of bodies in front of blocks. -/
def leading (bodies : List String) : List Char :=
  (";".intercalate bodies).toList ++ if bodies.isEmpty then [] else [';']

/-- The text shows the body within nested braces: at the end of the path it is one of
the bodies of a block, and each selector of the path stands in front of the braces
around the rest, behind the bodies of its block and between whole blocks. -/
inductive Shows (body : String) : (path : List String) → (text : List Char) → Prop
  | body {before after : List String} {children : List (String × Block)} :
      Shows body [] (inside (.mk (before ++ body :: after) children))
  | block {selector : String} {path : List String} {within : List Char}
      {bodies : List String} {before after : List (String × Block)} :
      Shows body path within →
      Shows body (selector :: path)
        (leading bodies ++ (childrenChars before
          ++ ((selector.toList ++ '\x7b' :: (within ++ ['\x7d'])) ++ childrenChars after)))

theorem text_eq (selector : String) (b : Block) :
    text selector b = selector.toList ++ '\x7b' :: (b.inside ++ ['\x7d']) := by
  obtain ⟨bodies, children⟩ := b
  simp [text, inside, Block.bodies, Block.children]

theorem childrenChars_append (before after : List (String × Block)) :
    childrenChars (before ++ after) = childrenChars before ++ childrenChars after := by
  induction before with
  | nil => rfl
  | cons child before ih => simp [childrenChars, ih]

/-- What a tree holds can be read between its braces. -/
theorem Holds.shows (h : Holds body path b) : Shows body path b.inside := by
  induction path generalizing b with
  | nil =>
    obtain ⟨before, after, hbodies⟩ := List.append_of_mem h
    obtain ⟨bodies, children⟩ := b
    obtain rfl : bodies = before ++ body :: after := hbodies
    exact .body
  | cons selector path ih =>
    obtain ⟨child, hget, hchild⟩ := h
    obtain ⟨before, after, hchildren⟩ := List.append_of_mem (Table.mem_of_get? hget)
    have hinside : b.inside = leading b.bodies ++ (childrenChars before
        ++ ((selector.toList ++ '\x7b' :: (child.inside ++ ['\x7d'])) ++ childrenChars after)) := by
      rw [inside, hchildren, childrenChars_append, childrenChars, text_eq]
      simp [leading]
    rw [hinside]
    exact .block (ih hchild)

/-- What a tree holds below its root can be read in the text of its blocks. -/
theorem Holds.shows_childrenText {selector : String} (h : Holds body (selector :: path) b) :
    Shows body (selector :: path) b.childrenText.toList := by
  -- the root has the same blocks without its bodies
  have hroot : Holds body (selector :: path) (.mk [] b.children) := h
  have htext : b.childrenText.toList = inside (.mk [] b.children) := by
    simp [childrenText, inside, Block.bodies, Block.children]
  rw [htext]
  exact hroot.shows

end Block

/-! ## Stylesheets of rules -/

namespace AtomicRule

/-- The chain of a rule with its name filled in. -/
def namedChain (r : AtomicRule) : List String := r.declaration.chain.map (Selector.named r.name)

/-- The text shows the body of the rule within the selectors of the rule, from some
place on. -/
def ShownIn (r : AtomicRule) (css : String) : Prop :=
  ∃ before sheet, css.toList = before ++ sheet ∧ Block.Shows r.declaration.body r.namedChain sheet

end AtomicRule

namespace Stylesheet

variable {rules : List AtomicRule} {r : AtomicRule}

/-- The tree of the rules that can be written. -/
def tree (rules : List AtomicRule) : Block :=
  Block.ofEntries ((rules.filter (·.declaration.isRenderable)).map entryOfRule)

theorem render_eq (rules : List AtomicRule) : render rules = (tree rules).childrenText := rfl

/-- Every rule that can be written stands in the tree, at the end of its chain. -/
theorem holds_tree (hr : r ∈ rules) (hrenderable : r.declaration.isRenderable = true) :
    (tree rules).Holds r.declaration.body r.namedChain := by
  refine Block.holds_ofEntries_iff.2 (List.mem_map.2 ⟨r, ?_, rfl⟩)
  exact List.mem_filter.2 ⟨hr, hrenderable⟩

/-- So it can be read in the stylesheet. -/
theorem shownIn_render (hr : r ∈ rules) (hrenderable : r.declaration.isRenderable = true) :
    r.ShownIn (render rules) := by
  refine ⟨[], (render rules).toList, rfl, ?_⟩
  have hholds := holds_tree hr hrenderable
  rw [render_eq]
  -- the innermost selector of the chain holds a name marker, so there is one
  cases hchain : r.namedChain with
  | nil =>
    have hnil : r.declaration.chain = [] := List.map_eq_nil_iff.1 hchain
    rw [Declaration.isRenderable, hnil] at hrenderable
    cases hrenderable
  | cons selector path =>
    rw [hchain] at hholds
    exact hholds.shows_childrenText

end Stylesheet

end AtomicCss
