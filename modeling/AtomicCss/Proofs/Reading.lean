import AtomicCss.Proofs.Walk

/-!
# Readings

What a walk means is what it comes to if nothing is kept in mind: a walk without
a state, a reading. A reading has a budget too, and a greater one never changes
a result that a smaller one has given.

- `Reading`, `Reading.Gives`: a reading, and the result that it comes to.
- `Reading.Below`: what the first reading gives, the second one gives.
- `Reading.Rising`: readings by budget, a greater budget gives no less.
- `Walk.Tracks I b w o`: as long as the state satisfies `I`, the walk `w` comes to
  what the readings `o` give, and with the budget `b` it comes to all that `o b`
  gives. Built up like the walks themselves.
-/

namespace AtomicCss

/-- A walk that keeps nothing in mind. -/
abbrev Reading (α : Type) := Walk Unit α

namespace Reading

variable {α β : Type} {r r' : Except Error α}

/-- The result that a reading comes to. -/
def Gives (o : Reading α) (r : Except Error α) : Prop := o () = some (r, ())

/-- A reading gives one result at most. -/
theorem Gives.unique {o : Reading α} (h : Gives o r) (h' : Gives o r') : r = r' :=
  (Prod.mk.inj (Option.some.inj (Eq.trans (Eq.symm h) h'))).1

theorem gives_pure {a : α} : Gives (pure a) r ↔ r = .ok a := by
  simp [Gives, eq_comm]

theorem gives_throw {e : Error} : Gives (throw e : Reading α) r ↔ r = .error e := by
  simp [Gives, eq_comm]

theorem not_gives_unfinished : ¬ Gives (Walk.unfinished : Reading α) r := by
  simp [Gives]

/-- The two ways in which a reading after another one gives a result. -/
theorem gives_bind {o : Reading α} {f : α → Reading β} {r : Except Error β} :
    Gives (o >>= f) r ↔
      (∃ e, Gives o (.error e) ∧ r = .error e) ∨ (∃ a, Gives o (.ok a) ∧ Gives (f a) r) := by
  unfold Gives
  rw [Walk.bind_eq_some]
  refine or_congr Iff.rfl (exists_congr fun a => ?_)
  exact ⟨fun ⟨(), h⟩ => h, fun h => ⟨(), h⟩⟩

/-- A value that is looked at through a function fails exactly if it does. -/
theorem gives_map_error {o : Reading α} {f : α → β} {e : Error} :
    Gives (do return f (← o)) (.error e) ↔ Gives o (.error e) := by
  rw [gives_bind]
  constructor
  · rintro (⟨e', he, heq⟩ | ⟨a, -, hpure⟩)
    · rwa [Except.error.inj heq]
    · cases gives_pure.1 hpure
  · exact fun h => .inl ⟨e, h, rfl⟩

theorem exists_gives_map {o : Reading α} (h : Gives o r) (f : α → β) :
    ∃ r, Gives (do return f (← o)) r := by
  cases r with
  | error e => exact ⟨_, gives_map_error.2 h⟩
  | ok a => exact ⟨_, gives_bind.2 (.inr ⟨a, h, gives_pure.2 rfl⟩)⟩

/-- The three ways in which a reading of a list comes to a result. -/
theorem gives_collect_cons {f : α → Reading (List β)} {a : α} {as : List α}
    {r : Except Error (List β)} :
    Gives (Walk.collect f (a :: as)) r ↔
      (∃ e, Gives (f a) (.error e) ∧ r = .error e) ∨
      (∃ here e, Gives (f a) (.ok here) ∧
        Gives (Walk.collect f as) (.error e) ∧ r = .error e) ∨
      (∃ here rest, Gives (f a) (.ok here) ∧
        Gives (Walk.collect f as) (.ok rest) ∧ r = .ok (here ++ rest)) := by
  unfold Gives
  rw [Walk.collect_cons_eq_some]
  refine or_congr Iff.rfl (or_congr ?_ ?_) <;> refine exists_congr fun here => ?_
  · exact ⟨fun ⟨(), h⟩ => h, fun h => ⟨(), h⟩⟩
  · exact ⟨fun ⟨(), h⟩ => h, fun h => ⟨(), h⟩⟩

/-- A reading through a list succeeds exactly if its first element and the rest of the list do. -/
theorem gives_collect_ok_cons {f : α → Reading (List β)} {a : α} {as : List α}
    {out : List β} :
    Gives (Walk.collect f (a :: as)) (.ok out) ↔
      ∃ here rest, Gives (f a) (.ok here) ∧ Gives (Walk.collect f as) (.ok rest) ∧
        out = here ++ rest := by
  rw [gives_collect_cons]
  simp

/-- A reading of a list that succeeds has read its front and its back. -/
theorem gives_collect_ok_append {f : α → Reading (List β)} {as bs : List α} {out : List β} :
    Gives (Walk.collect f (as ++ bs)) (.ok out) ↔
      ∃ front back, Gives (Walk.collect f as) (.ok front) ∧
        Gives (Walk.collect f bs) (.ok back) ∧ out = front ++ back := by
  rw [Walk.collect_append]
  constructor
  · intro h
    obtain ⟨front, hfront, h⟩ := (gives_bind.1 h).resolve_left (by simp)
    obtain ⟨back, hback, hout⟩ := (gives_bind.1 h).resolve_left (by simp)
    exact ⟨front, back, hfront, hback, Except.ok.inj (gives_pure.1 hout)⟩
  · rintro ⟨front, back, hfront, hback, rfl⟩
    refine gives_bind.2 (.inr ⟨front, hfront, ?_⟩)
    exact gives_bind.2 (.inr ⟨back, hback, gives_pure.2 rfl⟩)

/-- Lists that are read one by one are read one behind the other. -/
theorem exists_gives_collect_append {f : α → Reading (List β)} {as bs : List α}
    (has : ∃ r, Gives (Walk.collect f as) r) (hbs : ∃ r, Gives (Walk.collect f bs) r) :
    ∃ r, Gives (Walk.collect f (as ++ bs)) r := by
  rw [Walk.collect_append]
  obtain ⟨e | front, hfront⟩ := has
  · exact ⟨_, gives_bind.2 (.inl ⟨e, hfront, rfl⟩)⟩
  · obtain ⟨r, hback⟩ := hbs
    obtain ⟨r', hr'⟩ := exists_gives_map hback fun back => front ++ back
    exact ⟨r', gives_bind.2 (.inr ⟨front, hfront, hr'⟩)⟩

/-- A reading of a list that succeeds has read every element. -/
theorem Gives.of_collect_ok {f : α → Reading (List β)} {as : List α} {out : List β}
    (h : Gives (Walk.collect f as) (.ok out)) :
    ∀ a ∈ as, ∃ here, Gives (f a) (.ok here) := by
  induction as generalizing out with
  | nil => exact fun a ha => nomatch ha
  | cons b as ih =>
    obtain ⟨here, rest, hhere, hrest, -⟩ := gives_collect_ok_cons.1 h
    intro a ha
    rcases List.mem_cons.1 ha with rfl | ha
    · exact ⟨here, hhere⟩
    · exact ih hrest a ha

/-- What a reading of a list gives comes from one of its elements. -/
theorem exists_of_mem_collect_ok {f : α → Reading (List β)} {as : List α} {out : List β}
    (h : Gives (Walk.collect f as) (.ok out)) {x : β} (hx : x ∈ out) :
    ∃ a ∈ as, ∃ here, Gives (f a) (.ok here) ∧ x ∈ here := by
  induction as generalizing out with
  | nil =>
    obtain rfl := Except.ok.inj (gives_pure.1 h)
    exact nomatch hx
  | cons b as ih =>
    obtain ⟨here, rest, hhere, hrest, rfl⟩ := gives_collect_ok_cons.1 h
    rcases List.mem_append.1 hx with hx | hx
    · exact ⟨b, List.mem_cons_self, here, hhere, hx⟩
    · obtain ⟨a, ha, hgives⟩ := ih hrest hx
      exact ⟨a, List.mem_cons_of_mem b ha, hgives⟩

/-- A reading of a list that fails has failed at one of its elements. -/
theorem exists_of_collect_error {f : α → Reading (List β)} {as : List α} {e : Error}
    (h : Gives (Walk.collect f as) (.error e)) : ∃ a ∈ as, Gives (f a) (.error e) := by
  induction as with
  | nil => cases gives_pure.1 h
  | cons b as ih =>
    rcases gives_collect_cons.1 h with ⟨e', he, heq⟩ | ⟨_, e', -, he, heq⟩ | ⟨_, _, -, -, heq⟩
    · obtain rfl := Except.error.inj heq
      exact ⟨b, List.mem_cons_self, he⟩
    · obtain rfl := Except.error.inj heq
      obtain ⟨a, ha, hgives⟩ := ih he
      exact ⟨a, List.mem_cons_of_mem b ha, hgives⟩
    · cases heq

/-- If every element can be read, the list can be read. -/
theorem exists_gives_collect {f : α → Reading (List β)} {as : List α}
    (h : ∀ a ∈ as, ∃ r, Gives (f a) r) : ∃ r, Gives (Walk.collect f as) r := by
  induction as with
  | nil => exact ⟨_, gives_pure.2 rfl⟩
  | cons a as ih =>
    obtain ⟨here, hhere⟩ := h a List.mem_cons_self
    obtain ⟨rest, hrest⟩ := ih fun b hb => h b (List.mem_cons_of_mem a hb)
    cases here with
    | error e => exact ⟨_, gives_collect_cons.2 (.inl ⟨e, hhere, rfl⟩)⟩
    | ok here =>
      cases rest with
      | error e => exact ⟨_, gives_collect_cons.2 (.inr (.inl ⟨here, e, hhere, hrest, rfl⟩))⟩
      | ok rest => exact ⟨_, gives_collect_cons.2 (.inr (.inr ⟨here, rest, hhere, hrest, rfl⟩))⟩

/-- If a list is read and nothing in front of an element fails, the element is read. -/
theorem exists_gives_of_collect {f : α → Reading (List β)} {before after : List α} {a : α}
    {r : Except Error (List β)} (h : Gives (Walk.collect f (before ++ a :: after)) r)
    (hbefore : ∀ b ∈ before, ∀ e, ¬ Gives (f b) (.error e)) : ∃ r, Gives (f a) r := by
  induction before generalizing r with
  | nil =>
    rcases gives_collect_cons.1 h with ⟨e, he, -⟩ | ⟨here, _, hhere, -, -⟩ | ⟨here, _, hhere, -, -⟩
    · exact ⟨_, he⟩
    · exact ⟨_, hhere⟩
    · exact ⟨_, hhere⟩
  | cons b before ih =>
    have hrest := fun c hc => hbefore c (List.mem_cons_of_mem b hc)
    rcases gives_collect_cons.1 h with ⟨e, he, -⟩ | ⟨_, e, -, he, -⟩ | ⟨_, rest, -, hread, -⟩
    · exact absurd he (hbefore b List.mem_cons_self e)
    · exact ih he hrest
    · exact ih hread hrest

/-- Readings that agree on the elements of a list agree on the list. -/
theorem Gives.collect_ok_congr {f g : α → Reading (List β)} {as : List α} {out : List β}
    (h : Gives (Walk.collect f as) (.ok out))
    (hfg : ∀ a ∈ as, ∀ here, Gives (f a) (.ok here) → Gives (g a) (.ok here)) :
    Gives (Walk.collect g as) (.ok out) := by
  induction as generalizing out with
  | nil => exact h
  | cons b as ih =>
    obtain ⟨here, rest, hhere, hrest, rfl⟩ := gives_collect_ok_cons.1 h
    refine gives_collect_ok_cons.2 ⟨here, rest, hfg b List.mem_cons_self _ hhere, ?_, rfl⟩
    exact ih hrest fun a ha => hfg a (List.mem_cons_of_mem b ha)

/-! ## More budget -/

/-- What the first reading gives, the second one gives. -/
def Below (o o' : Reading α) : Prop := ∀ r, Gives o r → Gives o' r

theorem Below.refl (o : Reading α) : Below o o := fun _ h => h

/-- A reading that gives nothing is below every other one. -/
theorem below_unfinished (o : Reading α) : Below Walk.unfinished o :=
  fun _ h => absurd h not_gives_unfinished

/-- A reading after another one gives no less if both give no less. -/
theorem below_bind {o o' : Reading α} {f f' : α → Reading β} (ho : Below o o')
    (hf : ∀ a, Below (f a) (f' a)) : Below (o >>= f) (o' >>= f') := by
  intro r h
  rcases gives_bind.1 h with ⟨e, he, rfl⟩ | ⟨a, ha, hr⟩
  · exact gives_bind.2 (.inl ⟨e, ho _ he, rfl⟩)
  · exact gives_bind.2 (.inr ⟨a, ho _ ha, hf a _ hr⟩)

/-- A reading through a list gives no less if the readings of its elements do. -/
theorem below_collect {f f' : α → Reading (List β)} (hf : ∀ a, Below (f a) (f' a)) :
    ∀ as, Below (Walk.collect f as) (Walk.collect f' as)
  | [] => Below.refl _
  | a :: as =>
    below_bind (hf a) fun _ => below_bind (below_collect hf as) fun _ => Below.refl _

/-- Readings by budget, where a greater budget gives no less. -/
def Rising (o : Nat → Reading α) : Prop := ∀ b c, b ≤ c → Below (o b) (o c)

theorem rising_const (o : Reading α) : Rising fun _ => o := fun _ _ _ => Below.refl o

/-- Readings one after another rise if both rise. -/
theorem rising_bind {o : Nat → Reading α} {f : α → Nat → Reading β} (ho : Rising o)
    (hf : ∀ a, Rising (f a)) : Rising fun b => o b >>= fun a => f a b :=
  fun b c hbc => below_bind (ho b c hbc) fun a => hf a b c hbc

/-- Readings through a list rise if those of its elements do. -/
theorem rising_collect {f : α → Nat → Reading (List β)} (hf : ∀ a, Rising (f a))
    (as : List α) : Rising fun b => Walk.collect (fun a => f a b) as :=
  fun b c hbc => below_collect (fun a => hf a b c hbc) as

/-- If a list is read with no budget, there is a first element that is read with none. -/
theorem exists_stuck_of_collect {f : α → Nat → Reading (List β)} (hf : ∀ a, Rising (f a))
    {as : List α} (h : ∀ c r, ¬ Gives (Walk.collect (fun a => f a c) as) r) :
    ∃ before a after, as = before ++ a :: after ∧
      (∀ b ∈ before, ∃ c here, Gives (f b c) (.ok here)) ∧ ∀ c r, ¬ Gives (f a c) r := by
  induction as with
  | nil => exact absurd (gives_pure.2 rfl) (h 0 (.ok []))
  | cons a as ih =>
    by_cases ha : ∀ c r, ¬ Gives (f a c) r
    · exact ⟨[], a, as, rfl, fun b hb => absurd hb List.not_mem_nil, ha⟩
    obtain ⟨c, e | here, hc⟩ : ∃ c r, Gives (f a c) r := by simpa using ha
    · exact (h c (.error e) (gives_collect_cons.2 (.inl ⟨e, hc, rfl⟩))).elim
    -- the first element is read, so what is behind it is not
    have hrest (d : Nat) (r : Except Error (List β)) :
        ¬ Gives (Walk.collect (fun a => f a d) as) r := by
      intro hd
      have hc' := hf a c (max c d) (Nat.le_max_left c d) _ hc
      have hd' := rising_collect hf as d (max c d) (Nat.le_max_right c d) _ hd
      cases r with
      | error e =>
        exact h (max c d) _ (gives_collect_cons.2 (.inr (.inl ⟨here, e, hc', hd', rfl⟩)))
      | ok rest =>
        exact h (max c d) _ (gives_collect_ok_cons.2 ⟨here, rest, hc', hd', rfl⟩)
    obtain ⟨before, b, after, rfl, hbefore, hstuck⟩ := ih hrest
    refine ⟨a :: before, b, after, rfl, fun x hx => ?_, hstuck⟩
    rcases List.mem_cons.1 hx with rfl | hx
    · exact ⟨c, here, hc⟩
    · exact hbefore x hx

/-- Two budgets of rising readings do not give different results. -/
theorem Rising.unique {o : Nat → Reading α} (ho : Rising o) {b c : Nat}
    (h : Gives (o b) r) (h' : Gives (o c) r') : r = r' := by
  -- the greater of the two budgets gives both
  have hmax := ho b (max b c) (Nat.le_max_left b c) _ h
  have hmax' := ho c (max b c) (Nat.le_max_right b c) _ h'
  exact hmax.unique hmax'

end Reading

/-! ## Walks that follow readings -/

namespace Walk

open Reading

variable {σ τ α β : Type}

/-- A walk that keeps the invariant `I` and means what the readings give: every
result that it comes to is given with some budget, and every result that is given
with the budget `b` it comes to. -/
structure Tracks (I : σ → Prop) (b : Nat) (w : Walk σ α) (o : Nat → Reading α) : Prop where
  rising : Rising o
  answers : ∀ {s r s'}, I s → w s = some (r, s') → I s' ∧ ∃ c, Gives (o c) r
  follows : ∀ {s r}, I s → Gives (o b) r → ∃ s', w s = some (r, s')

variable {I : σ → Prop} {b : Nat}

/-- The values of a walk are among those that are read. -/
theorem Tracks.ensures {w : Walk σ α} {o : Nat → Reading α} (h : Tracks I b w o) :
    Ensures I w fun a => ∃ c, Gives (o c) (.ok a) := by
  intro s r s' hs hrun
  obtain ⟨hs', c, hc⟩ := h.answers hs hrun
  exact ⟨hs', fun a ha => ⟨c, ha ▸ hc⟩⟩

/-- A walk that gives back at once what the readings give. -/
theorem tracks_pure_of_gives {o : Nat → Reading α} (ho : Rising o) {c : Nat} {a : α}
    (h : Gives (o c) (.ok a)) : Tracks I b (pure a) o where
  rising := ho
  answers := by
    intro s r s' hs hw
    obtain ⟨rfl, rfl⟩ := Prod.mk.inj (Option.some.inj hw)
    exact ⟨hs, c, h⟩
  follows := by
    intro s r _ hr
    obtain rfl := ho.unique h hr
    exact ⟨s, rfl⟩

theorem tracks_pure (a : α) : Tracks I b (pure a) fun _ => pure a :=
  tracks_pure_of_gives (rising_const _) (gives_pure.2 rfl) (c := 0)

/-- Where nothing is given with the budget, the walk may come to nothing. -/
theorem tracks_unfinished {o : Nat → Reading α} (ho : Rising o)
    (hb : ∀ r, ¬ Gives (o b) r) : Tracks I b Walk.unfinished o where
  rising := ho
  answers := fun _ hw => nomatch hw
  follows := fun _ hr => absurd hr (hb _)

/-- A walk after another one tracks the one reading after the other. -/
theorem tracks_bind {w : Walk σ α} {o : Nat → Reading α} {f : α → Walk σ β}
    {g : α → Nat → Reading β} (hw : Tracks I b w o) (hf : ∀ a, Tracks I b (f a) (g a)) :
    Tracks I b (w >>= f) fun c => o c >>= fun a => g a c where
  rising := rising_bind hw.rising fun a => (hf a).rising
  answers := by
    intro s r s' hs h
    rcases bind_eq_some.1 h with ⟨e, he, rfl⟩ | ⟨a, s₁, ha, hr⟩
    · obtain ⟨hs', c, hc⟩ := hw.answers hs he
      have hgiven : Gives (o c >>= fun a => g a c) (.error e) :=
        gives_bind.2 (.inl ⟨e, hc, rfl⟩)
      exact ⟨hs', c, hgiven⟩
    · obtain ⟨hs₁, c, hc⟩ := hw.answers hs ha
      obtain ⟨hs', d, hd⟩ := (hf a).answers hs₁ hr
      -- the greater of the two budgets is enough for both parts
      have hc' := hw.rising c (max c d) (Nat.le_max_left c d) _ hc
      have hd' := (hf a).rising d (max c d) (Nat.le_max_right c d) _ hd
      have hgiven : Gives (o (max c d) >>= fun a => g a (max c d)) r :=
        gives_bind.2 (.inr ⟨a, hc', hd'⟩)
      exact ⟨hs', max c d, hgiven⟩
  follows := by
    intro s r hs h
    rcases gives_bind.1 h with ⟨e, he, rfl⟩ | ⟨a, ha, hr⟩
    · obtain ⟨s', hs'⟩ := hw.follows hs he
      exact ⟨s', bind_run_error hs'⟩
    · obtain ⟨s₁, hs₁⟩ := hw.follows hs ha
      have hI₁ : I s₁ := (hw.answers hs hs₁).1
      obtain ⟨s', hs'⟩ := (hf a).follows hI₁ hr
      exact ⟨s', by rw [bind_run_ok hs₁, hs']⟩

/-- A walk through a list tracks the reading through it if each element is tracked. -/
theorem tracks_collect {f : α → Walk σ (List β)} {g : α → Nat → Reading (List β)}
    (hf : ∀ a, Tracks I b (f a) (g a)) :
    ∀ as, Tracks I b (collect f as) fun c => collect (fun a => g a c) as
  | [] => tracks_pure []
  | a :: as =>
    tracks_bind (hf a) fun _ => tracks_bind (tracks_collect hf as) fun _ => tracks_pure _

/-- A walk may look at the state first, as long as what it does then means the same
in every state that satisfies the invariant. -/
theorem tracks_get {f : σ → Walk σ α} {o : Nat → Reading α} (ho : Rising o)
    (hf : ∀ s, I s → Tracks I b (f s) o) : Tracks I b (get >>= f) o where
  rising := ho
  answers := fun {s} _ _ hs h => (hf s hs).answers hs h
  follows := fun {s} _ hs h => (hf s hs).follows hs h

/-- A walk may take note of its value, as long as the invariant allows it for values
that the readings give. -/
theorem tracks_note {w : Walk σ α} {o : Nat → Reading α} (hw : Tracks I b w o)
    {f : α → σ → σ} (hf : ∀ {s a c}, I s → Gives (o c) (.ok a) → I (f a s)) :
    Tracks I b (do let a ← w; modify (f a); return a) o where
  rising := hw.rising
  answers := by
    intro s r s' hs h
    rcases bind_eq_some.1 h with ⟨e, he, rfl⟩ | ⟨a, s₁, ha, hr⟩
    · exact hw.answers hs he
    · -- only a value is taken note of
      obtain ⟨hs₁, c, hc⟩ := hw.answers hs ha
      obtain ⟨rfl, rfl⟩ := Prod.mk.inj (Option.some.inj hr)
      exact ⟨hf hs₁ hc, c, hc⟩
  follows := by
    intro s r hs h
    obtain ⟨s₁, hs₁⟩ := hw.follows hs h
    cases r with
    | error e => exact ⟨s₁, bind_run_error hs₁⟩
    | ok a => exact ⟨f a s₁, by rw [bind_run_ok hs₁]; rfl⟩

/-- Where the invariant holds, only the runs of a walk matter. -/
theorem tracks_congr {w w' : Walk σ α} {o : Nat → Reading α} (hw : Tracks I b w o)
    (h : ∀ s, I s → w' s = w s) : Tracks I b w' o where
  rising := hw.rising
  answers := fun hs hr => hw.answers hs (h _ hs ▸ hr)
  follows := fun {s} _ hs hr => by
    rw [h s hs]
    exact hw.follows hs hr

/-- A walk that is another walk on a part of the state, wherever that part lies. -/
theorem tracks_part {w : Walk σ α} {o : Nat → Reading α} (hw : Tracks I b w o)
    {w' : Walk τ α} {J : τ → Prop}
    (h : ∀ t, J t → ∃ (s : σ) (put : σ → τ), I s ∧ (∀ s', I s' → J (put s')) ∧
      w' t = (w s).map fun x => (x.1, put x.2)) : Tracks J b w' o where
  rising := hw.rising
  answers := by
    intro t r t' ht hr
    obtain ⟨s, put, hs, hput, heq⟩ := h t ht
    rw [heq, Option.map_eq_some_iff] at hr
    obtain ⟨⟨r, s'⟩, hr, hpair⟩ := hr
    obtain ⟨rfl, rfl⟩ := Prod.mk.inj hpair
    obtain ⟨hs', hc⟩ := hw.answers hs hr
    exact ⟨hput s' hs', hc⟩
  follows := by
    intro t r ht hr
    obtain ⟨s, put, hs, -, heq⟩ := h t ht
    obtain ⟨s', hs'⟩ := hw.follows hs hr
    exact ⟨put s', by rw [heq, hs']; rfl⟩

/-- A walk on a part of the state runs on this part and puts it back. -/
theorem within_run {get : τ → σ} {set : σ → τ → τ} (w : Walk σ α) (t : τ) :
    within get set w t = (w (get t)).map fun x => (x.1, set x.2 t) := by
  unfold within
  cases w (get t) <;> rfl

/-- One more level of nesting on both sides. -/
theorem tracks_succ {w : Walk σ α} {o o' : Nat → Reading α} (h : Tracks I b w o')
    (hzero : o 0 = unfinished) (hsucc : ∀ c, o (c + 1) = o' c) : Tracks I (b + 1) w o where
  rising := by
    intro c d hcd
    cases c with
    | zero =>
      -- without any budget nothing is given
      rw [hzero]
      exact below_unfinished _
    | succ c =>
      obtain ⟨d, rfl⟩ : ∃ d', d = d' + 1 := ⟨d - 1, by omega⟩
      rw [hsucc, hsucc]
      exact h.rising c d (by omega)
  answers := by
    intro s r s' hs hw
    obtain ⟨hs', c, hc⟩ := h.answers hs hw
    exact ⟨hs', c + 1, by rwa [hsucc]⟩
  follows := fun hs hr => h.follows hs (by rwa [hsucc] at hr)

end Walk

end AtomicCss
