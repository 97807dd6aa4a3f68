import AtomicCss.Proofs.Stylesheet.Decoding
import AtomicCss.Proofs.Stylesheet.Grouping

/-!
# Writing a stylesheet

A stylesheet is written from front to back: blocks are opened under their selectors,
bodies are written into the block that is open, and blocks are closed. What is written and
in which order can be read off this sequence of tokens, which spells the text.

- `Token`, `Token.spell`: what is written, and its text.
- `Token.placed`, `Token.opened`: the bodies and the blocks in the order of writing, with
  the selectors of the blocks around them.
- `Block.tokens`, `Block.childrenTokens`: how a tree is written.
- `Stylesheet.tokens_ofEntries`: the tree of entries is written group by group.
- `Stylesheet.Written`: a text that is written in groups, with every entry in its place.
- `Stylesheet.written_in_groups`: stylesheets and previews are written so.
-/

namespace AtomicCss

/-- A step in writing a stylesheet. -/
inductive Token where
  | opening (selector : String)
  | body (text : String)
  | closing
  deriving DecidableEq, Repr

namespace Token

/-- What parts a body from the tokens behind it: nothing if its block is closed there. -/
def separator : List Token → List Char
  | [] => []
  | .closing :: _ => []
  | .body _ :: _ => [';']
  | .opening _ :: _ => [';']

/-- The text of tokens. -/
def spell : List Token → List Char
  | [] => []
  | .opening selector :: tokens => selector.toList ++ '\x7b' :: spell tokens
  | .body text :: tokens => text.toList ++ (separator tokens ++ spell tokens)
  | .closing :: tokens => '\x7d' :: spell tokens

/-- The bodies among tokens in the order of writing, each with the selectors of the blocks
that are open around it, from the outside in. `path` is open in front of the tokens. -/
def placed : (path : List String) → List Token → List (List String × String)
  | _, [] => []
  | path, .opening selector :: tokens => placed (path ++ [selector]) tokens
  | path, .body text :: tokens => (path, text) :: placed path tokens
  | path, .closing :: tokens => placed path.dropLast tokens

/-- The blocks that are opened in the order of writing, each by its own selector behind
those of the blocks around it. -/
def opened : (path : List String) → List Token → List (List String)
  | _, [] => []
  | path, .opening selector :: tokens =>
    (path ++ [selector]) :: opened (path ++ [selector]) tokens
  | path, .body _ :: tokens => opened path tokens
  | path, .closing :: tokens => opened path.dropLast tokens

variable {path : List String} {tokens : List Token}

theorem placed_bodies (path : List String) (bodies : List String) (tokens : List Token) :
    placed path (bodies.map .body ++ tokens) =
      bodies.map (fun body => (path, body)) ++ placed path tokens := by
  induction bodies with
  | nil => rfl
  | cons body bodies ih => exact congrArg ((path, body) :: ·) ih

theorem opened_bodies (path : List String) (bodies : List String) (tokens : List Token) :
    opened path (bodies.map .body ++ tokens) = opened path tokens := by
  induction bodies with
  | nil => rfl
  | cons body bodies ih => exact ih

/-- Each selector that is written opens a block. -/
theorem exists_opened_of_opening (path : List String) {selector : String}
    (h : .opening selector ∈ tokens) :
    ∃ outer, outer ++ [selector] ∈ opened path tokens := by
  induction tokens generalizing path with
  | nil => cases h
  | cons token tokens ih =>
    rcases List.mem_cons.1 h with rfl | htail
    · exact ⟨path, List.mem_cons_self⟩
    · cases token with
      | opening selector' =>
        obtain ⟨outer, houter⟩ := ih (path ++ [selector']) htail
        exact ⟨outer, List.mem_cons_of_mem _ houter⟩
      | body text => exact ih path htail
      | closing => exact ih path.dropLast htail

/-- The text of bodies in front of other tokens. -/
theorem spell_bodies (bodies : List String) (tokens : List Token) :
    spell (bodies.map .body ++ tokens) =
      (";".intercalate bodies).toList ++
        ((if bodies = [] then [] else separator tokens) ++ spell tokens) := by
  induction bodies with
  | nil => rfl
  | cons body bodies ih =>
    cases bodies with
    | nil => simp [spell]
    | cons body' bodies =>
      simp only [List.map_cons, List.cons_append] at ih ⊢
      rw [spell, ih]
      simp [separator, String.toList_intercalate]

end Token

/-! ## Writing a tree -/

namespace Block

mutual

/-- How the inside of a block is written: its bodies, then the blocks in it. -/
def tokens : Block → List Token
  | .mk bodies children => bodies.map .body ++ childrenTokens children
termination_by structural b => b

/-- How blocks are written one after the other. -/
def childrenTokens : List (String × Block) → List Token
  | [] => []
  | (selector, b) :: rest => .opening selector :: (tokens b ++ .closing :: childrenTokens rest)
termination_by structural cs => cs

end

theorem tokens_eq (b : Block) :
    b.tokens = b.bodies.map .body ++ childrenTokens b.children := by
  obtain ⟨bodies, children⟩ := b
  rfl

mutual

/-- The tokens of a block, closed behind them, spell its inside. -/
theorem spell_tokens (b : Block) (rest : List Token) :
    Token.spell (b.tokens ++ .closing :: rest) = b.inside ++ Token.spell (.closing :: rest) :=
  match b with
  | .mk bodies children => by
    have hseparator : Token.separator (childrenTokens children ++ .closing :: rest) =
        if children = [] then [] else [';'] := by
      cases children <;> rfl
    rw [tokens, List.append_assoc, Token.spell_bodies, hseparator,
      spell_childrenTokens children (.closing :: rest)]
    by_cases hbodies : bodies = [] <;> by_cases hchildren : children = [] <;>
      simp [inside, Block.bodies, Block.children, hbodies, hchildren]

/-- The tokens of blocks spell their texts. -/
theorem spell_childrenTokens (children : List (String × Block)) (rest : List Token) :
    Token.spell (childrenTokens children ++ rest) =
      childrenChars children ++ Token.spell rest :=
  match children with
  | [] => rfl
  | (selector, b) :: children => by
    have htokens : childrenTokens ((selector, b) :: children) ++ rest =
        .opening selector :: (b.tokens ++ .closing :: (childrenTokens children ++ rest)) := by
      simp [childrenTokens]
    rw [htokens, Token.spell, spell_tokens b, Token.spell, spell_childrenTokens children rest,
      childrenChars, text_eq]
    simp

end

mutual

/-- What stands behind a block is not within it. -/
theorem placed_tokens_append (path : List String) (b : Block) (rest : List Token) :
    Token.placed path (b.tokens ++ rest) =
      Token.placed path b.tokens ++ Token.placed path rest :=
  match b with
  | .mk bodies children => by
    rw [tokens, List.append_assoc, Token.placed_bodies, Token.placed_bodies,
      placed_childrenTokens_append path children rest, List.append_assoc]

theorem placed_childrenTokens_append (path : List String) (children : List (String × Block))
    (rest : List Token) :
    Token.placed path (childrenTokens children ++ rest) =
      Token.placed path (childrenTokens children) ++ Token.placed path rest :=
  match children with
  | [] => rfl
  | (selector, b) :: children => by
    simp only [childrenTokens, List.cons_append, List.append_assoc, Token.placed,
      placed_tokens_append _ b, List.dropLast_concat,
      placed_childrenTokens_append path children rest]

end

mutual

theorem opened_tokens_append (path : List String) (b : Block) (rest : List Token) :
    Token.opened path (b.tokens ++ rest) =
      Token.opened path b.tokens ++ Token.opened path rest :=
  match b with
  | .mk bodies children => by
    rw [tokens, List.append_assoc, Token.opened_bodies, Token.opened_bodies,
      opened_childrenTokens_append path children rest]

theorem opened_childrenTokens_append (path : List String) (children : List (String × Block))
    (rest : List Token) :
    Token.opened path (childrenTokens children ++ rest) =
      Token.opened path (childrenTokens children) ++ Token.opened path rest :=
  match children with
  | [] => rfl
  | (selector, b) :: children => by
    simp only [childrenTokens, List.cons_append, List.append_assoc, Token.opened,
      opened_tokens_append _ b, List.dropLast_concat,
      opened_childrenTokens_append path children rest]

end

theorem placed_childrenTokens (path : List String) (children : List (String × Block)) :
    Token.placed path (childrenTokens children) =
      children.flatMap fun c => Token.placed (path ++ [c.1]) c.2.tokens := by
  induction children with
  | nil => rfl
  | cons c children ih =>
    obtain ⟨selector, b⟩ := c
    simp only [childrenTokens, Token.placed, placed_tokens_append, List.dropLast_concat, ih,
      List.flatMap_cons]

theorem opened_childrenTokens (path : List String) (children : List (String × Block)) :
    Token.opened path (childrenTokens children) =
      children.flatMap fun c => (path ++ [c.1]) :: Token.opened (path ++ [c.1]) c.2.tokens := by
  induction children with
  | nil => rfl
  | cons c children ih =>
    obtain ⟨selector, b⟩ := c
    simp only [childrenTokens, Token.opened, opened_tokens_append, List.dropLast_concat, ih,
      List.flatMap_cons, List.cons_append]

/-! ## Writing entries -/

variable {entries : List (List String × String)} {path : List String}

/-- The tree of entries is written group by group. -/
theorem placed_ofEntries (path : List String) (entries : List (List String × String)) :
    Token.placed path (ofEntries entries).tokens =
      (ending entries).map (fun body => (path, body)) ++
        (heads entries).flatMap fun selector =>
          Token.placed (path ++ [selector]) (ofEntries (group selector entries)).tokens := by
  rw [tokens_eq, Token.placed_bodies, placed_childrenTokens, bodies_ofEntries,
    children_ofEntries, List.flatMap_map]

theorem opened_ofEntries (path : List String) (entries : List (List String × String)) :
    Token.opened path (ofEntries entries).tokens =
      (heads entries).flatMap fun selector => (path ++ [selector]) ::
        Token.opened (path ++ [selector]) (ofEntries (group selector entries)).tokens := by
  rw [tokens_eq, Token.opened_bodies, opened_childrenTokens, children_ofEntries,
    List.flatMap_map]

/-- Each entry is written at the end of its chain, and nothing else is written. -/
theorem mem_placed_ofEntries {place : List String × String} :
    place ∈ Token.placed path (ofEntries entries).tokens ↔
      ∃ e ∈ entries, place = (path ++ e.1, e.2) := by
  induction entries using grouping_induct generalizing path with
  | step entries ih =>
    rw [placed_ofEntries, List.mem_append, List.mem_map, List.mem_flatMap]
    constructor
    · rintro (⟨body, hbody, rfl⟩ | ⟨selector, hselector, hplace⟩)
      · exact ⟨_, mem_ending_iff.1 hbody, by simp⟩
      · obtain ⟨e, he, rfl⟩ := (ih selector hselector).1 hplace
        exact ⟨_, mem_group_iff.1 he, by simp⟩
    · rintro ⟨⟨_ | ⟨selector, chain⟩, body⟩, he, rfl⟩
      · exact .inl ⟨body, mem_ending_iff.2 he, by simp⟩
      · have hselector : selector ∈ heads entries := mem_heads_iff.2 ⟨chain, body, he⟩
        refine .inr ⟨selector, hselector, (ih selector hselector).2 ?_⟩
        exact ⟨(chain, body), mem_group_iff.2 he, by simp⟩

/-- No body is written twice in a block. -/
theorem nodup_placed_ofEntries : (Token.placed path (ofEntries entries).tokens).Nodup := by
  induction entries using grouping_induct generalizing path with
  | step entries ih =>
    rw [placed_ofEntries, List.nodup_append']
    refine ⟨?_, ?_, ?_⟩
    · exact (nodup_distinct _).map fun body body' h => (Prod.mk.inj h).2
    · -- places in the blocks of different selectors differ behind the path
      refine List.nodup_flatMap.2 ⟨fun selector hselector => ih selector hselector, ?_⟩
      refine (nodup_distinct _).imp fun {selector selector'} hne place hplace hplace' => hne ?_
      obtain ⟨e, -, rfl⟩ := mem_placed_ofEntries.1 hplace
      obtain ⟨e', -, heq⟩ := mem_placed_ofEntries.1 hplace'
      have hpaths := (Prod.mk.inj heq).1
      simp only [List.append_assoc, List.append_cancel_left_eq] at hpaths
      exact (List.cons.inj hpaths).1
    · intro place hplace hplace'
      obtain ⟨body, -, rfl⟩ := List.mem_map.1 hplace
      obtain ⟨selector, -, hplace'⟩ := List.mem_flatMap.1 hplace'
      obtain ⟨e, -, heq⟩ := mem_placed_ofEntries.1 hplace'
      simpa using (Prod.mk.inj heq).1

/-- Each block is on the way to an entry. -/
theorem exists_entry_of_opened {block : List String}
    (h : block ∈ Token.opened path (ofEntries entries).tokens) :
    ∃ e ∈ entries, block <+: path ++ e.1 := by
  induction entries using grouping_induct generalizing path with
  | step entries ih =>
    rw [opened_ofEntries, List.mem_flatMap] at h
    obtain ⟨selector, hselector, h⟩ := h
    rcases List.mem_cons.1 h with rfl | h
    · obtain ⟨chain, body, he⟩ := mem_heads_iff.1 hselector
      exact ⟨_, he, chain, by simp⟩
    · obtain ⟨e, he, hinit⟩ := ih selector hselector h
      exact ⟨_, mem_group_iff.1 he, by simpa using hinit⟩

end Block

/-! ## Writing rules -/

namespace Stylesheet

/-- Each rule that can be written: its chain with its name filled in, and its body. -/
def entries (rules : List AtomicRule) : List (List String × String) :=
  (rules.filter (·.declaration.isRenderable)).map fun r => (r.namedChain, r.declaration.body)

/-- Each declaration that can be written: its chain as it is, and its body. -/
def previewEntries (declarations : List Declaration) : List (List String × String) :=
  (declarations.filter (·.isRenderable)).map fun d => (d.chain, d.body)

/-- How the blocks of the tree of entries are written. -/
def tokensOf (entries : List (List String × String)) : List Token :=
  Block.childrenTokens (Block.ofEntries entries).children

/-- How the stylesheet of rules is written. -/
def tokens (rules : List AtomicRule) : List Token := tokensOf (entries rules)

/-- The text of a stylesheet is written in groups: it is that of the groups of the entries,
and that of the tokens. These place every entry at the end of its chain and nothing else,
they place nothing twice, and every block that they open is on the way to what they
place. -/
structure Written (entries : List (List String × String)) (tokens : List Token)
    (css : String) : Prop where
  groups : css.toList = Block.grouped entries
  spelled : css.toList = Token.spell tokens
  placed : ∀ chain body, (chain, body) ∈ Token.placed [] tokens ↔ (chain, body) ∈ entries
  once : (Token.placed [] tokens).Nodup
  leads : ∀ block ∈ Token.opened [] tokens,
    ∃ inner body, (block ++ inner, body) ∈ Token.placed [] tokens

variable {entries : List (List String × String)}

theorem spell_tokensOf (entries : List (List String × String)) :
    Token.spell (tokensOf entries) = (Block.ofEntries entries).childrenText.toList := by
  have hspell := Block.spell_childrenTokens (Block.ofEntries entries).children []
  simpa [tokensOf, Block.childrenText, Token.spell] using hspell

/-- Below the root nothing is left out. -/
theorem tokens_ofEntries (h : ∀ e ∈ entries, e.1 ≠ []) :
    (Block.ofEntries entries).tokens = tokensOf entries := by
  have hending : Block.ending entries = [] := List.eq_nil_iff_forall_not_mem.2
    fun body hbody => h _ (Block.mem_ending_iff.1 hbody) rfl
  rw [Block.tokens_eq, Block.bodies_ofEntries, hending]
  rfl

theorem mem_placed_tokensOf (h : ∀ e ∈ entries, e.1 ≠ []) {place : List String × String} :
    place ∈ Token.placed [] (tokensOf entries) ↔ place ∈ entries := by
  rw [← tokens_ofEntries h, Block.mem_placed_ofEntries]
  simp

theorem nodup_placed_tokensOf (h : ∀ e ∈ entries, e.1 ≠ []) :
    (Token.placed [] (tokensOf entries)).Nodup := by
  rw [← tokens_ofEntries h]
  exact Block.nodup_placed_ofEntries

/-- The tree of entries below its root is written in groups. -/
theorem written_ofEntries (h : ∀ e ∈ entries, e.1 ≠ []) :
    Written entries (tokensOf entries) (Block.ofEntries entries).childrenText where
  groups := by
    rw [Block.childrenText, String.toList_ofList, Block.childrenChars_ofEntries]
  spelled := (spell_tokensOf entries).symm
  placed chain body := mem_placed_tokensOf h
  once := nodup_placed_tokensOf h
  leads block hblock := by
    rw [← tokens_ofEntries h] at hblock
    obtain ⟨⟨chain, body⟩, he, inner, hchain⟩ := Block.exists_entry_of_opened hblock
    rw [List.nil_append] at hchain
    exact ⟨inner, body, (mem_placed_tokensOf h).2 (hchain ▸ he)⟩

theorem ne_nil_of_mem_entries {rules : List AtomicRule} :
    ∀ e ∈ Stylesheet.entries rules, e.1 ≠ [] := by
  intro e he
  obtain ⟨r, hr, rfl⟩ := List.mem_map.1 he
  have hchain := Declaration.chain_ne_nil_of_isRenderable (List.mem_filter.1 hr).2
  exact fun hnil => hchain (List.map_eq_nil_iff.1 hnil)

theorem ne_nil_of_mem_previewEntries {declarations : List Declaration} :
    ∀ e ∈ previewEntries declarations, e.1 ≠ [] := by
  intro e he
  obtain ⟨d, hd, rfl⟩ := List.mem_map.1 he
  exact Declaration.chain_ne_nil_of_isRenderable (List.mem_filter.1 hd).2

/-- Each selector that is written stands in the chain of a rule that can be written, with
its name filled in. -/
theorem exists_rule_of_opening {rules : List AtomicRule} {selector : String}
    (h : .opening selector ∈ tokens rules) :
    ∃ r ∈ rules, r.declaration.isRenderable = true ∧ selector ∈ r.namedChain := by
  rw [tokens, ← tokens_ofEntries ne_nil_of_mem_entries] at h
  obtain ⟨outer, hopened⟩ := Token.exists_opened_of_opening [] h
  obtain ⟨e, he, hinit⟩ := Block.exists_entry_of_opened hopened
  obtain ⟨r, hr, rfl⟩ := List.mem_map.1 he
  obtain ⟨hr, hrenderable⟩ := List.mem_filter.1 hr
  exact ⟨r, hr, hrenderable, hinit.subset (by simp)⟩

/-- A rule that can be written is placed at the end of its chain. -/
theorem mem_placed_tokens {rules : List AtomicRule} {r : AtomicRule} (hr : r ∈ rules)
    (hrenderable : r.declaration.isRenderable = true) :
    (r.namedChain, r.declaration.body) ∈ Token.placed [] (tokens rules) :=
  (mem_placed_tokensOf ne_nil_of_mem_entries).2
    (List.mem_map.2 ⟨r, List.mem_filter.2 ⟨hr, hrenderable⟩, rfl⟩)

theorem spell_tokens (rules : List AtomicRule) :
    Token.spell (tokens rules) = (render rules).toList :=
  spell_tokensOf (entries rules)

/-- Stylesheets are written in groups, with the names of the rules filled in, and so are
previews, with the chains as they are. -/
theorem written_in_groups (rules : List AtomicRule) (declarations : List Declaration) :
    Written (Stylesheet.entries rules) (tokens rules) (render rules) ∧
      Written (previewEntries declarations) (tokensOf (previewEntries declarations))
        (preview declarations) :=
  ⟨written_ofEntries ne_nil_of_mem_entries, written_ofEntries ne_nil_of_mem_previewEntries⟩

end Stylesheet

end AtomicCss
