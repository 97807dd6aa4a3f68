import AtomicCss.Proofs.Walk
import Mathlib.Data.List.Forall2

/-!
# Walks in lockstep

Two walks on states of different types, which give values of different types, can still go
the same way: either both have no result, or both fail with the same error, or both succeed
with values that belong together, and their states belong together all along.

- `Walk.Alike S R x y`: two outcomes that belong together, by `S` for states and by `R` for
  values.
- `Walk.Lockstep S R w w'`: from states that belong together, the outcomes do. Built up like
  the walks themselves: `lockstep_bind`, `lockstep_collect`.
- `Walk.Alike.part`: walks on parts of larger states.
-/

namespace AtomicCss.Walk

variable {σ τ σ' τ' α α' β β' : Type} {S : σ → τ → Prop} {R : α → β → Prop}

/-- Two outcomes that belong together. -/
inductive Alike (S : σ → τ → Prop) (R : α → β → Prop) :
    Option (Except Error α × σ) → Option (Except Error β × τ) → Prop
  | unfinished : Alike S R none none
  | error (e : Error) {s : σ} {t : τ} :
      S s t → Alike S R (some (.error e, s)) (some (.error e, t))
  | ok {a : α} {b : β} {s : σ} {t : τ} :
      R a b → S s t → Alike S R (some (.ok a, s)) (some (.ok b, t))

/-- From states that belong together, the walks come to outcomes that do. -/
def Lockstep (S : σ → τ → Prop) (R : α → β → Prop) (w : Walk σ α) (w' : Walk τ β) : Prop :=
  ∀ s t, S s t → Alike S R (w s) (w' t)

theorem Alike.imp {R' : α → β → Prop} {x : Option (Except Error α × σ)}
    {y : Option (Except Error β × τ)} (h : Alike S R x y) (hR : ∀ a b, R a b → R' a b) :
    Alike S R' x y := by
  cases h with
  | unfinished => exact .unfinished
  | error e hs => exact .error e hs
  | ok hr hs => exact .ok (hR _ _ hr) hs

theorem Alike.refl (x : Option (Except Error α × σ)) : Alike Eq Eq x x := by
  rcases x with _ | ⟨e | a, s⟩
  · exact .unfinished
  · exact .error e rfl
  · exact .ok rfl rfl

/-- Outcomes on parts of states: where the parts belong together, so do the states that they
are put into. -/
theorem Alike.part {S' : σ' → τ' → Prop} (set : σ → σ') (set' : τ → τ')
    {x : Option (Except Error α × σ)} {y : Option (Except Error β × τ)} (h : Alike S R x y)
    (hset : ∀ s t, S s t → S' (set s) (set' t)) :
    Alike S' R (x.map fun x => (x.1, set x.2)) (y.map fun y => (y.1, set' y.2)) := by
  cases h with
  | unfinished => exact .unfinished
  | error e hs => exact .error e (hset _ _ hs)
  | ok hr hs => exact .ok hr (hset _ _ hs)

/-- Outcomes in the same state whose values are images have the image as an outcome. -/
theorem Alike.eq_map {f : α → β} {x : Option (Except Error α × σ)}
    {y : Option (Except Error β × σ)} (h : Alike Eq (fun a b => f a = b) x y) :
    y = x.map fun x => (x.1.map f, x.2) := by
  cases h with
  | unfinished => rfl
  | error e hs => exact hs ▸ rfl
  | ok hr hs => exact hs ▸ hr ▸ rfl

/-- Element by element, a second list is that of the images of the first one. -/
theorem forall₂_image_iff {f : α → β} {as : List α} {bs : List β} :
    List.Forall₂ (fun a b => f a = b) as bs ↔ as.map f = bs := by
  rw [← List.forall₂_map_left_iff (R := Eq), List.forall₂_eq_eq_eq]

theorem lockstep_unfinished : Lockstep S R (unfinished : Walk σ α) unfinished :=
  fun _ _ _ => .unfinished

theorem lockstep_pure {a : α} {b : β} (h : R a b) :
    Lockstep S R (pure a : Walk σ α) (pure b) := fun _ _ hs => .ok h hs

theorem lockstep_bind {R' : α' → β' → Prop} {w : Walk σ α} {w' : Walk τ β}
    {f : α → Walk σ α'} {f' : β → Walk τ β'} (hw : Lockstep S R w w')
    (hf : ∀ a b, R a b → Lockstep S R' (f a) (f' b)) :
    Lockstep S R' (w >>= f) (w' >>= f') := by
  intro s t hst
  have h := hw s t hst
  rw [bind_run, bind_run]
  generalize w s = x at h ⊢
  generalize w' t = y at h ⊢
  cases h with
  | unfinished => exact .unfinished
  | error e hs => exact .error e hs
  | ok hr hs => exact hf _ _ hr _ _ hs

/-- Walks through lists whose elements belong together, one by one. -/
theorem lockstep_collect {P : α' → β' → Prop} {f : α' → Walk σ (List α)}
    {f' : β' → Walk τ (List β)} {as : List α'} {bs : List β'} (h : List.Forall₂ P as bs)
    (hf : ∀ a b, P a b → Lockstep S (List.Forall₂ R) (f a) (f' b)) :
    Lockstep S (List.Forall₂ R) (collect f as) (collect f' bs) := by
  induction h with
  | nil => exact lockstep_pure .nil
  | cons hab _ ih =>
    exact lockstep_bind (hf _ _ hab) fun _ _ hhere => lockstep_bind ih fun _ _ hrest =>
      lockstep_pure (List.rel_append hhere hrest)

/-- Walks through the same list. -/
theorem lockstep_collect_same {f : α' → Walk σ (List α)} {f' : α' → Walk τ (List β)}
    (h : ∀ a, Lockstep S (List.Forall₂ R) (f a) (f' a)) (as : List α') :
    Lockstep S (List.Forall₂ R) (collect f as) (collect f' as) := by
  refine lockstep_collect (List.forall₂_same.2 fun _ _ => rfl) fun a b hab => ?_
  subst hab
  exact h a

end AtomicCss.Walk
