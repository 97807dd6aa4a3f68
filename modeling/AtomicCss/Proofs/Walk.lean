import AtomicCss.Walk

/-!
# Running walks

How the walks that are built from smaller ones run, and what they leave alone.

- `Walk.bind_run`, `Walk.bind_eq_some`: a walk after another one.
- `Walk.collect_cons_eq_some`: a walk for each element of a list.
- `Walk.Preserves view w`: the walk `w` never changes the `view` of the state.
  Built up like the walks themselves: `preserves_bind`, `preserves_collect`,
  `preserves_within`.
- `Walk.Ensures I w Q`: the walk `w` keeps the invariant `I`, and its values satisfy
  `Q`. Built up in the same way.
-/

namespace AtomicCss.Walk

variable {σ τ α β γ : Type}

/-! ## One step at a time -/

@[simp] theorem pure_run (a : α) (s : σ) : (pure a : Walk σ α) s = some (.ok a, s) := rfl

@[simp] theorem throw_run (e : Error) (s : σ) :
    (throw e : Walk σ α) s = some (.error e, s) := rfl

@[simp] theorem get_run (s : σ) : (get : Walk σ σ) s = some (.ok s, s) := rfl

@[simp] theorem modify_run (f : σ → σ) (s : σ) :
    (modify f : Walk σ PUnit) s = some (.ok ⟨⟩, f s) := rfl

@[simp] theorem step_run (f : σ → α × σ) (s : σ) :
    step f s = some (.ok (f s).1, (f s).2) := rfl

@[simp] theorem unfinished_run (s : σ) : (unfinished : Walk σ α) s = none := rfl

/-- A walk after another one runs from where the first has led; an error of the
first ends both. -/
theorem bind_run (w : Walk σ α) (f : α → Walk σ β) (s : σ) :
    (w >>= f) s = match w s with
      | none => none
      | some (.error e, s') => some (.error e, s')
      | some (.ok a, s') => f a s' := by
  show (StateT.bind w _) s = _
  unfold StateT.bind
  cases w s with
  | none => rfl
  | some x => obtain ⟨_ | _, _⟩ := x <;> rfl

/-- After a success the second walk runs on its value, from the state it led to. -/
theorem bind_run_ok {w : Walk σ α} {f : α → Walk σ β} {s s' : σ} {a : α}
    (h : w s = some (.ok a, s')) : (w >>= f) s = f a s' := by
  rw [bind_run, h]

/-- After an error the second walk does not run. -/
theorem bind_run_error {w : Walk σ α} {f : α → Walk σ β} {s s' : σ} {e : Error}
    (h : w s = some (.error e, s')) : (w >>= f) s = some (.error e, s') := by
  rw [bind_run, h]

/-- The two ways in which a walk after another one comes to a result. -/
theorem bind_eq_some {w : Walk σ α} {f : α → Walk σ β} {s s' : σ} {r : Except Error β} :
    (w >>= f) s = some (r, s') ↔
      (∃ e, w s = some (.error e, s') ∧ r = .error e) ∨
      (∃ a s₁, w s = some (.ok a, s₁) ∧ f a s₁ = some (r, s')) := by
  rw [bind_run]
  rcases w s with _ | ⟨e | a, s₁⟩
  · -- the first walk has no result, so there is none on either side
    simp
  · constructor
    · intro h
      obtain ⟨rfl, rfl⟩ : Except.error e = r ∧ s₁ = s' := by simpa using h
      exact .inl ⟨e, rfl, rfl⟩
    · rintro (⟨e', h, rfl⟩ | ⟨a, s₂, h, -⟩)
      · obtain ⟨rfl, rfl⟩ : e = e' ∧ s₁ = s' := by simpa using h
        rfl
      · simp at h
  · constructor
    · exact fun h => .inr ⟨a, s₁, rfl, h⟩
    · rintro (⟨e, h, -⟩ | ⟨b, s₂, h, hf⟩)
      · simp at h
      · obtain ⟨rfl, rfl⟩ : a = b ∧ s₁ = s₂ := by simpa using h
        exact hf

/-- A walk whose value is then changed by a function. -/
theorem map_eq_some {w : Walk σ α} {f : α → β} {s s' : σ} {r : Except Error β} :
    (do return f (← w) : Walk σ β) s = some (r, s') ↔
      ∃ a, w s = some (a, s') ∧ r = a.map f := by
  rw [bind_eq_some]
  constructor
  · rintro (⟨e, h, rfl⟩ | ⟨a, s₁, h, hpure⟩)
    · exact ⟨_, h, rfl⟩
    · obtain ⟨rfl, rfl⟩ := Prod.mk.inj (Option.some.inj hpure)
      exact ⟨_, h, rfl⟩
  · rintro ⟨_ | a, h, rfl⟩
    · exact .inl ⟨_, h, rfl⟩
    · exact .inr ⟨a, s', h, rfl⟩

/-! ## Walks through lists -/

theorem collect_cons (f : α → Walk σ (List β)) (a : α) (as : List α) :
    collect f (a :: as) = do return (← f a) ++ (← collect f as) := rfl

/-- The three ways in which a walk through a list comes to a result: its first
element ends it, a later element ends it, or no element does. -/
theorem collect_cons_eq_some {f : α → Walk σ (List β)} {a : α} {as : List α} {s s' : σ}
    {r : Except Error (List β)} :
    collect f (a :: as) s = some (r, s') ↔
      (∃ e, f a s = some (.error e, s') ∧ r = .error e) ∨
      (∃ here s₁ e, f a s = some (.ok here, s₁) ∧
        collect f as s₁ = some (.error e, s') ∧ r = .error e) ∨
      (∃ here s₁ rest, f a s = some (.ok here, s₁) ∧
        collect f as s₁ = some (.ok rest, s') ∧ r = .ok (here ++ rest)) := by
  rw [collect_cons, bind_eq_some]
  refine or_congr Iff.rfl ?_
  constructor
  · rintro ⟨here, s₁, hhere, h⟩
    rcases bind_eq_some.1 h with ⟨e, hrest, rfl⟩ | ⟨rest, s₂, hrest, h⟩
    · exact .inl ⟨here, s₁, e, hhere, hrest, rfl⟩
    · obtain ⟨rfl, rfl⟩ : Except.ok (here ++ rest) = r ∧ s₂ = s' := by simpa using h
      exact .inr ⟨here, s₁, rest, hhere, hrest, rfl⟩
  · rintro (⟨here, s₁, e, hhere, hrest, rfl⟩ | ⟨here, s₁, rest, hhere, hrest, rfl⟩)
    · exact ⟨here, s₁, hhere, bind_run_error hrest⟩
    · exact ⟨here, s₁, hhere, by rw [bind_run_ok hrest]; rfl⟩

/-- The walk through a single element is the walk of this element. -/
theorem collect_singleton (f : α → Walk σ (List β)) (a : α) : collect f [a] = f a := by
  funext s
  rw [collect_cons, bind_run]
  rcases f a s with _ | ⟨_ | here, s'⟩
  · rfl
  · rfl
  · show some (Except.ok (here ++ []), s') = _
    rw [List.append_nil]

/-- The walk through two lists is the one through the first and then the one through the second. -/
theorem collect_append (f : α → Walk σ (List β)) (as bs : List α) :
    collect f (as ++ bs) = do return (← collect f as) ++ (← collect f bs) := by
  induction as with
  | nil => simp [collect]
  | cons a as ih =>
    simp only [List.cons_append, collect, ih, bind_assoc, pure_bind, List.append_assoc]

/-- Walks through the images of elements. -/
theorem collect_map (f : γ → Walk σ (List β)) (g : α → γ) (as : List α) :
    collect f (as.map g) = collect (fun a => f (g a)) as := by
  induction as with
  | nil => rfl
  | cons a as ih => rw [List.map_cons, collect_cons, collect_cons, ih]

/-- Walks that give back each element alone and move nowhere give back the list. -/
theorem collect_singletons {f : α → Walk σ (List α)} {as : List α} {s : σ}
    (h : ∀ a ∈ as, f a s = some (.ok [a], s)) : collect f as s = some (.ok as, s) := by
  induction as with
  | nil => rfl
  | cons a as ih =>
    refine collect_cons_eq_some.2 (.inr (.inr ⟨[a], s, as, h a (by simp), ?_, rfl⟩))
    exact ih fun b hb => h b (List.mem_cons_of_mem _ hb)

/-- Walks that can only give back each element alone give back the list or nothing. -/
theorem eq_of_collect_singletons {f : α → Walk σ (List α)} {as : List α} {s s' : σ}
    {r : Except Error (List α)}
    (hf : ∀ a ∈ as, ∀ r s', f a s = some (r, s') → r = .ok [a] ∧ s' = s)
    (h : collect f as s = some (r, s')) : r = .ok as ∧ s' = s := by
  induction as generalizing r with
  | nil =>
    obtain ⟨rfl, rfl⟩ := Prod.mk.inj (Option.some.inj h)
    exact ⟨rfl, rfl⟩
  | cons a as ih =>
    have ih' := fun r => ih (fun b hb => hf b (List.mem_cons_of_mem a hb)) (r := r)
    rcases collect_cons_eq_some.1 h with
      ⟨e, ha, -⟩ | ⟨here, s₁, e, ha, has, -⟩ | ⟨here, s₁, rest, ha, has, rfl⟩
    · -- no element gives an error
      cases (hf a List.mem_cons_self _ _ ha).1
    · obtain ⟨-, rfl⟩ := hf a List.mem_cons_self _ _ ha
      cases (ih' _ has).1
    · obtain ⟨hhere, rfl⟩ := hf a List.mem_cons_self _ _ ha
      obtain ⟨hrest, rfl⟩ := ih' _ has
      rw [Except.ok.inj hhere, Except.ok.inj hrest]
      exact ⟨rfl, rfl⟩

/-! ## What a walk leaves alone -/

/-- Wherever the walk leads, the view of the state is the one it started with. -/
def Preserves (view : σ → γ) (w : Walk σ α) : Prop :=
  ∀ s r s', w s = some (r, s') → view s' = view s

section

variable {view : σ → γ}

theorem preserves_pure (a : α) : Preserves view (pure a : Walk σ α) := by
  intro s r s' h
  obtain ⟨-, rfl⟩ : _ ∧ s = s' := by simpa using h
  rfl

theorem preserves_get : Preserves view (get : Walk σ σ) := by
  intro s r s' h
  obtain ⟨-, rfl⟩ : _ ∧ s = s' := by simpa using h
  rfl

/-- A change that the view does not show leaves it alone. -/
theorem preserves_modify {f : σ → σ} (hf : ∀ s, view (f s) = view s) :
    Preserves view (modify f : Walk σ PUnit) := by
  intro s r s' h
  obtain ⟨-, rfl⟩ : _ ∧ f s = s' := by simpa using h
  exact hf s

/-- What both walks leave alone is left alone by one after the other. -/
theorem preserves_bind {w : Walk σ α} {f : α → Walk σ β} (hw : Preserves view w)
    (hf : ∀ a, Preserves view (f a)) : Preserves view (w >>= f) := by
  intro s r s' h
  rcases bind_eq_some.1 h with ⟨e, h, -⟩ | ⟨a, s₁, h₁, h₂⟩
  · exact hw _ _ _ h
  · exact (hf a _ _ _ h₂).trans (hw _ _ _ h₁)

/-- What the walk of each element leaves alone is left alone by the walk through the list. -/
theorem preserves_collect {f : α → Walk σ (List β)} (hf : ∀ a, Preserves view (f a)) :
    ∀ as, Preserves view (collect f as)
  | [] => preserves_pure _
  | a :: as =>
    preserves_bind (hf a) fun _ => preserves_bind (preserves_collect hf as) fun _ =>
      preserves_pure _

/-- A walk on a part of the state leaves a view alone that does not show that part. -/
theorem preserves_within {get : σ → τ} {set : τ → σ → σ} (hset : ∀ t s, view (set t s) = view s)
    (w : Walk τ α) : Preserves view (within get set w) := by
  intro s r s' h
  unfold within at h
  split at h
  · cases h
  · obtain ⟨-, rfl⟩ : _ ∧ set _ s = s' := by simpa using h
    exact hset _ s

end

/-! ## What a walk ensures -/

/-- Where the invariant `I` holds, the walk leads to states where it holds, and if it
succeeds its value satisfies `Q`. -/
def Ensures (I : σ → Prop) (w : Walk σ α) (Q : α → Prop) : Prop :=
  ∀ s r s', I s → w s = some (r, s') → I s' ∧ ∀ a, r = .ok a → Q a

section

variable {I : σ → Prop} {J : τ → Prop} {w : Walk σ α} {P : α → Prop} {Q : β → Prop}

/-- What is ensured of the values may be weakened. -/
theorem Ensures.mono {P' : α → Prop} (h : Ensures I w P) (hP : ∀ a, P a → P' a) :
    Ensures I w P' := by
  intro s r s' hs hrun
  obtain ⟨hs', hr⟩ := h s r s' hs hrun
  exact ⟨hs', fun a ha => hP a (hr a ha)⟩

/-- No walk can break what holds of every state. -/
theorem ensures_trivial (w : Walk σ α) : Ensures (fun _ => True) w fun _ => True :=
  fun _ _ _ _ _ => ⟨trivial, fun _ _ => trivial⟩

/-- A walk without a result cannot break anything. -/
theorem ensures_unfinished : Ensures I (unfinished : Walk σ α) P := fun _ _ _ _ h => nomatch h

theorem ensures_pure {a : α} (h : P a) : Ensures I (pure a : Walk σ α) P := by
  intro s r s' hs hrun
  obtain ⟨rfl, rfl⟩ := Prod.mk.inj (Option.some.inj hrun)
  exact ⟨hs, fun b hb => Except.ok.inj hb ▸ h⟩

/-- The state that a walk asks for satisfies the invariant. -/
theorem ensures_get : Ensures I (get : Walk σ σ) I := by
  intro s r s' hs hrun
  obtain ⟨rfl, rfl⟩ := Prod.mk.inj (Option.some.inj hrun)
  exact ⟨hs, fun b hb => Except.ok.inj hb ▸ hs⟩

theorem ensures_modify {f : σ → σ} (hf : ∀ s, I s → I (f s)) :
    Ensures I (modify f : Walk σ PUnit) fun _ => True := by
  intro s r s' hs hrun
  obtain ⟨-, rfl⟩ := Prod.mk.inj (Option.some.inj hrun)
  exact ⟨hf s hs, fun _ _ => trivial⟩

/-- The second walk may rely on what the first one ensures of its value. -/
theorem ensures_bind {f : α → Walk σ β} (hw : Ensures I w P)
    (hf : ∀ a, P a → Ensures I (f a) Q) : Ensures I (w >>= f) Q := by
  intro s r s' hs hrun
  rcases bind_eq_some.1 hrun with ⟨e, he, rfl⟩ | ⟨a, s₁, ha, hr⟩
  · exact ⟨(hw _ _ _ hs he).1, fun b hb => nomatch hb⟩
  · obtain ⟨hs₁, hP⟩ := hw _ _ _ hs ha
    exact hf a (hP a rfl) _ _ _ hs₁ hr

/-- What holds of a list and of the joined results is built up like the list. -/
theorem ensures_collect {f : α → Walk σ (List β)} {Q : α → List β → Prop}
    {R : List α → List β → Prop} (hf : ∀ a, Ensures I (f a) (Q a)) (hnil : R [] [])
    (hcons : ∀ {a as here rest}, Q a here → R as rest → R (a :: as) (here ++ rest)) :
    ∀ as, Ensures I (collect f as) (R as)
  | [] => ensures_pure hnil
  | a :: as =>
    ensures_bind (hf a) fun _ hhere => ensures_bind (ensures_collect hf hnil hcons as)
      fun _ hrest => ensures_pure (hcons hhere hrest)

/-- What holds of every result of an element holds of every joined result. -/
theorem ensures_collect_forall {f : α → Walk σ (List β)}
    (hf : ∀ a, Ensures I (f a) fun here => ∀ x ∈ here, Q x) (as : List α) :
    Ensures I (collect f as) fun out => ∀ x ∈ out, Q x := by
  refine ensures_collect (R := fun _ out => ∀ x ∈ out, Q x) hf ?_ ?_ as
  · exact fun x hx => nomatch hx
  · exact fun hhere hrest x hx => (List.mem_append.1 hx).elim (hhere x) (hrest x)

/-- A walk on a part of the state keeps the invariant `J` of the whole, if `J` says that `I` holds
of the part and the part may be put back. -/
theorem ensures_within {get : τ → σ} {set : σ → τ → τ} (hget : ∀ t, J t → I (get t))
    (hset : ∀ t s, J t → I s → J (set s t)) (h : Ensures I w P) :
    Ensures J (within get set w) P := by
  intro t r t' ht hrun
  unfold within at hrun
  split at hrun
  · cases hrun
  · next r' s hw =>
    obtain ⟨rfl, rfl⟩ := Prod.mk.inj (Option.some.inj hrun)
    obtain ⟨hs, hP⟩ := h _ _ _ (hget t ht) hw
    exact ⟨hset t s ht hs, hP⟩

end

end AtomicCss.Walk
