import AtomicCss.Proofs.Alias.Expansion
import AtomicCss.Proofs.Engine.Run
import AtomicCss.Proofs.Plugin.Dispatch

/-!
# More budget

A budget only decides whether a walk comes to a result, not to which one. Whatever
the plugins are, a call that has come to an answer comes to the same answer, and
leads to the same engine, with every other budget that is enough for it.

- `Walk.Kept w w'`: the walk `w'` comes to every result that the walk `w` comes to.
  Built up like the walks themselves.
- `Extraction.kept_definition`: a greater budget keeps what a definition says.
- `Engine.kept_extractAll`: a greater budget keeps what items say.
- `Engine.extractAll_unique`: what items say does not depend on the budget.
-/

namespace AtomicCss

variable {σ : Type}

/-! ## Walks that keep results -/

namespace Walk

variable {τ α β : Type} {w w' : Walk σ α}

/-- The second walk comes to every result that the first one comes to. -/
def Kept (w w' : Walk σ α) : Prop := ∀ s x, w s = some x → w' s = some x

theorem Kept.refl (w : Walk σ α) : Kept w w := fun _ _ h => h

/-- Where the budget is used up there is no result to keep. -/
theorem kept_unfinished (w : Walk σ α) : Kept unfinished w := fun _ _ h => nomatch h

/-- A walk after another one keeps its results if both do. -/
theorem kept_bind {f f' : α → Walk σ β} (hw : Kept w w') (hf : ∀ a, Kept (f a) (f' a)) :
    Kept (w >>= f) (w' >>= f') := by
  intro s ⟨r, s'⟩ h
  rcases bind_eq_some.1 h with ⟨e, he, rfl⟩ | ⟨a, s₁, ha, hr⟩
  · exact bind_run_error (hw _ _ he)
  · rw [bind_run_ok (hw _ _ ha)]
    exact hf a _ _ hr

/-- A walk through a list keeps its results if the walk of each element does. -/
theorem kept_collect {f f' : α → Walk σ (List β)} (hf : ∀ a, Kept (f a) (f' a)) :
    ∀ as, Kept (collect f as) (collect f' as)
  | [] => Kept.refl _
  | a :: as =>
    kept_bind (hf a) fun _ => kept_bind (kept_collect hf as) fun _ => Kept.refl _

/-- A walk that keeps its results keeps them on a part of a greater state. -/
theorem kept_within {get : τ → σ} {set : σ → τ → τ} (h : Kept w w') :
    Kept (within get set w) (within get set w') := by
  intro t x hx
  unfold within at hx ⊢
  cases hw : w (get t) with
  | none =>
    rw [hw] at hx
    cases hx
  | some y =>
    rw [hw] at hx
    rw [h _ _ hw]
    exact hx

/-- If greater budgets keep what smaller ones come to, all come to the same. -/
theorem unique_of_kept {w : Nat → Walk σ α} (h : ∀ b c, b ≤ c → Kept (w b) (w c)) {b c : Nat}
    {s : σ} {x y : Except Error α × σ} (hx : w b s = some x) (hy : w c s = some y) : x = y := by
  have hx' := h b (max b c) (Nat.le_max_left b c) s x hx
  have hy' := h c (max b c) (Nat.le_max_right b c) s y hy
  exact Option.some.inj (hx'.symm.trans hy')

end Walk

open Walk

/-! ## Aliases -/

namespace AliasRules

variable {α : Type} {kind : AliasKind} {name? : α → Option String} {b c : Nat}

/-- An element keeps its results if the expansion of the name it stands for does. -/
theorem kept_expandElement
    {expansion expansion' : String → Walk (AliasRules (List α)) (Option (List α))}
    (h : ∀ name, Kept (expansion name) (expansion' name)) (a : α) :
    Kept (expandElement name? expansion a) (expandElement name? expansion' a) := by
  unfold expandElement
  cases name? a with
  | none => exact Kept.refl _
  | some name => exact kept_bind (h name) fun _ => Kept.refl _

/-- A greater budget keeps what an input expands to. Resolving the input needs none;
only the elements of its answer are expanded with what is left. -/
theorem kept_expand (hbc : b ≤ c) (path : List String) (input : String) :
    Kept (expand kind name? b path input) (expand kind name? c path input) := by
  induction b generalizing c path input with
  | zero => exact kept_unfinished _
  | succ b ih =>
    obtain ⟨c, rfl⟩ : ∃ c', c = c' + 1 := ⟨c - 1, by omega⟩
    intro r x h
    rw [expand_succ_run] at h ⊢
    split at h
    · next hmem => rwa [if_pos hmem]
    next hmem =>
    rw [if_neg hmem]
    rcases hresolve : r.resolve input with ⟨_ | answer, r₁⟩ <;> rw [hresolve] at h
    · exact h
    · -- only the elements of the answer are expanded with the smaller budget
      have helement (a : α) :
          Kept (expandElement name? (expand kind name? b (path ++ [input])) a)
            (expandElement name? (expand kind name? c (path ++ [input])) a) :=
        kept_expandElement (fun name => ih (by omega) (path ++ [input]) name) a
      have hcollect := kept_collect helement answer r₁
      dsimp only at h ⊢
      rcases hfull : collect (expandElement name? (expand kind name? b (path ++ [input])))
        answer r₁ with _ | full
      · rw [hfull] at h
        cases h
      · rw [hfull] at h
        rw [hcollect full hfull]
        exact h

/-- A greater budget keeps what a selector expands to. -/
theorem kept_expandSelector (hbc : b ≤ c) (selector : String) :
    Kept (expandSelector b selector) (expandSelector c selector) := by
  rw [expandSelector_eq, expandSelector_eq]
  exact kept_bind (kept_expand hbc [] selector) fun _ => Kept.refl _

end AliasRules

/-! ## Hooks -/

variable {b c : Nat}

namespace Plugin

/-- A definition needs no budget, and a shortcut needs that of its expansion. -/
theorem kept_expandItem (hbc : b ≤ c) :
    ∀ item : StyleItem, Kept (expandItem b item) (expandItem c item)
  | .definition _ => Kept.refl _
  | .shortcut name => kept_bind (AliasRules.kept_expand hbc [] name) fun _ => Kept.refl _

/-- A plugin that walks on its own rules keeps the results of the walk. -/
theorem ofWalk_kept {α ρ : Type} {make : ρ → Plugin σ} {w w' : Walk ρ α} (h : Kept w w')
    {rules : ρ} {s : σ} {x : Except Error (Option α) × Plugin σ × σ}
    (hx : ofWalk make w rules s = some x) : ofWalk make w' rules s = some x := by
  unfold ofWalk at hx ⊢
  cases hw : w rules with
  | none =>
    rw [hw] at hx
    cases hx
  | some y =>
    rw [hw] at hx
    rw [h _ _ hw]
    exact hx

end Plugin

namespace Pipeline

/-- If each plugin keeps its results, the pipeline does. -/
theorem kept_run {α : Type} {hook hook' : Plugin σ → α → σ → HookResult σ α}
    (h : ∀ p a s x, hook p a s = some x → hook' p a s = some x) (a : α) :
    Kept (run hook a) (run hook' a) := by
  rintro p ⟨r, p'⟩ hx
  obtain ⟨turns, unasked, hps, hps', htaken, hlinked⟩ := run_eq_some.1 hx
  have htaken' : ∀ t ∈ turns, t.Taken hook' := fun t ht => h _ _ _ _ (htaken t ht)
  exact run_eq_some.2 ⟨turns, unasked, hps, hps', htaken', hlinked⟩

/-- Of the plugins only the one for selectors needs a budget for a chain. -/
theorem kept_transformSelectors (hbc : b ≤ c) (chain : List String) :
    Kept (transformSelectors (σ := σ) b chain) (transformSelectors c chain) := by
  refine kept_run (fun p chain s x hx => ?_) chain
  cases p with
  | selectors aliases =>
    exact Plugin.ofWalk_kept (kept_collect (AliasRules.kept_expandSelector hbc) chain) hx
  | _ => exact hx

/-- Of the plugins only the one for shortcuts needs a budget for items. -/
theorem kept_transformItems (hbc : b ≤ c) (items : List StyleItem) :
    Kept (transformItems (σ := σ) b items) (transformItems c items) := by
  refine kept_run (fun p items s x hx => ?_) items
  cases p with
  | shortcuts aliases =>
    exact Plugin.ofWalk_kept (kept_collect (Plugin.kept_expandItem hbc) items) hx
  | _ => exact hx

end Pipeline

/-! ## Extraction -/

namespace Extraction

variable {deeper deeper' : List String → StyleDefinition → Walk (Pipeline σ) (List Extracted)}

/-- If definitions keep what they say, so do the items that stand for them. -/
theorem kept_itemsWith (hbc : b ≤ c) (h : ∀ chain d, Kept (deeper chain d) (deeper' chain d))
    (chain : List String) (list : List StyleItem) :
    Kept (itemsWith b deeper chain list) (itemsWith c deeper' chain list) := by
  refine kept_bind (Pipeline.kept_transformItems hbc list) fun items => ?_
  refine kept_collect (fun item => ?_) items
  cases item with
  | shortcut name => exact Kept.refl _
  | definition d => exact h chain d

/-- If nested definitions keep what they say, so does every entry. -/
theorem kept_entryWith (hbc : b ≤ c) (h : ∀ chain d, Kept (deeper chain d) (deeper' chain d))
    (chain selectors : List String) : ∀ e : String × StyleValue,
      Kept (entryWith b deeper chain selectors e) (entryWith c deeper' chain selectors e)
  | (_, .property _) => Kept.refl _
  | (_, .nested d) => h _ d
  | (_, .items items) => kept_itemsWith hbc h _ items

/-- A greater budget keeps what a definition says. -/
theorem kept_definition (host : String) (hbc : b ≤ c) (chain : List String)
    (d : StyleDefinition) :
    Kept (definition (σ := σ) host b chain d) (definition host c chain d) := by
  induction b generalizing c chain d with
  | zero => exact kept_unfinished _
  | succ b ih =>
    obtain ⟨c, rfl⟩ : ∃ c', c = c' + 1 := ⟨c - 1, by omega⟩
    have hbc' : b ≤ c := by omega
    refine kept_bind (Pipeline.kept_transformSelectors hbc' chain) fun replaced => ?_
    refine kept_bind (Kept.refl _) fun definitions => kept_collect (fun d => ?_) definitions
    exact kept_collect (kept_entryWith hbc' (ih hbc') chain _) d

/-- A greater budget keeps what a list of items says. -/
theorem kept_items (host : String) (hbc : b ≤ c) (chain : List String)
    (list : List StyleItem) :
    Kept (items (σ := σ) host b chain list) (items host c chain list) :=
  kept_itemsWith hbc (kept_definition host hbc) chain list

end Extraction

namespace Engine

/-- A greater budget keeps what an item says to an engine. A shortcut that the engine has kept is
read without any. -/
theorem kept_extractItem (hbc : b ≤ c) (item : StyleItem) :
    Kept (extractItem (σ := σ) b item) (extractItem c item) := by
  cases item with
  | definition d =>
    exact kept_bind (Kept.refl _) fun e => kept_within (Extraction.kept_definition _ hbc [] d)
  | shortcut name =>
    refine kept_bind (Kept.refl _) fun e => ?_
    cases Table.get? e.shortcuts name with
    | some parts => exact Kept.refl _
    | none =>
      exact kept_bind (kept_within (Extraction.kept_items _ hbc [] [.shortcut name])) fun _ =>
        Kept.refl _

/-- A greater budget keeps what items say. -/
theorem kept_extractAll (hbc : b ≤ c) (items : List StyleItem) :
    Kept (extractAll (σ := σ) b items) (extractAll c items) :=
  kept_collect (kept_extractItem hbc) items

/-- What items say, and the engine that reading them leads to, do not depend on the
budget. -/
theorem extractAll_unique {items : List StyleItem} {e : Engine σ}
    {x y : Except Error (List Extracted) × Engine σ} (hx : extractAll b items e = some x)
    (hy : extractAll c items e = some y) : x = y :=
  unique_of_kept (fun _ _ hbc => kept_extractAll hbc items) hx hy

end Engine

end AtomicCss
