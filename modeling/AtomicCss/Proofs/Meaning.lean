import AtomicCss.Proofs.Reading
import Mathlib.Data.List.Forall2

/-!
# Readings that mean the same

Readings by budget mean what they give with enough of it. Two of them mean the same if
they come to the same errors, and to values that are related; how much budget each of
them takes does not matter.

- `Reading.Means`: what readings give with some budget.
- `Reading.Same R o o'`: the readings `o` and `o'` mean the same, up to the relation `R`
  of their values. Built up like the readings themselves: `Same.bind`, `same_collect`.
-/

namespace AtomicCss.Reading

variable {α α' β β' : Type}

/-- With some budget the readings give the result. -/
def Means (o : Nat → Reading α) (r : Except Error α) : Prop := ∃ b, Gives (o b) r

/-- Rising readings mean one result at most. -/
theorem Means.unique {o : Nat → Reading α} {r r' : Except Error α} (ho : Rising o)
    (h : Means o r) (h' : Means o r') : r = r' := by
  obtain ⟨b, hb⟩ := h
  obtain ⟨c, hc⟩ := h'
  exact ho.unique hb hc

/-- The greater one of two budgets is enough for both readings. -/
theorem Means.both {o : Nat → Reading α} {o' : Nat → Reading β} {r : Except Error α}
    {r' : Except Error β} (ho : Rising o) (ho' : Rising o') (h : Means o r) (h' : Means o' r') :
    ∃ b, Gives (o b) r ∧ Gives (o' b) r' := by
  obtain ⟨b, hb⟩ := h
  obtain ⟨c, hc⟩ := h'
  exact ⟨max b c, ho b _ (Nat.le_max_left b c) _ hb, ho' c _ (Nat.le_max_right b c) _ hc⟩

/-- The same error twice, or two values that are related. -/
inductive Corresponds (R : α → β → Prop) : Except Error α → Except Error β → Prop
  | error (e : Error) : Corresponds R (.error e) (.error e)
  | ok {a : α} {b : β} : R a b → Corresponds R (.ok a) (.ok b)

theorem Corresponds.imp {R S : α → β → Prop} {r : Except Error α} {r' : Except Error β}
    (h : Corresponds R r r') (hRS : ∀ a b, R a b → S a b) : Corresponds S r r' := by
  cases h with
  | error e => exact .error e
  | ok hR => exact .ok (hRS _ _ hR)

/-- Whatever the first readings mean, the second ones mean something that corresponds. -/
def Follows (R : α → β → Prop) (o : Nat → Reading α) (o' : Nat → Reading β) : Prop :=
  ∀ r, Means o r → ∃ r', Means o' r' ∧ Corresponds R r r'

/-- Rising readings that mean the same, up to a relation of their values. -/
structure Same (R : α → β → Prop) (o : Nat → Reading α) (o' : Nat → Reading β) : Prop where
  rising : Rising o
  rising' : Rising o'
  forth : Follows R o o'
  back : Follows (flip R) o' o

/-! ## One reading after another -/

/-- The two ways in which readings one after another come to mean something. -/
theorem means_bind {o : Nat → Reading α} {f : α → Nat → Reading β} (ho : Rising o)
    (hf : ∀ a, Rising (f a)) {r : Except Error β} :
    Means (fun b => o b >>= fun a => f a b) r ↔
      (∃ e, Means o (.error e) ∧ r = .error e) ∨ ∃ a, Means o (.ok a) ∧ Means (f a) r := by
  constructor
  · rintro ⟨b, h⟩
    rcases gives_bind.1 h with ⟨e, he, rfl⟩ | ⟨a, ha, hr⟩
    · exact .inl ⟨e, ⟨b, he⟩, rfl⟩
    · exact .inr ⟨a, ⟨b, ha⟩, ⟨b, hr⟩⟩
  · rintro (⟨e, ⟨b, he⟩, rfl⟩ | ⟨a, ha, hr⟩)
    · exact ⟨b, gives_bind.2 (.inl ⟨e, he, rfl⟩)⟩
    · obtain ⟨b, ha', hr'⟩ := ha.both ho (hf a) hr
      exact ⟨b, gives_bind.2 (.inr ⟨a, ha', hr'⟩)⟩

section

variable {R : α → α' → Prop} {S : β → β' → Prop} {o : Nat → Reading α} {o' : Nat → Reading α'}
  {f : α → Nat → Reading β} {f' : α' → Nat → Reading β'}

/-- A reading after another one follows if both do and the values between them are related. -/
theorem follows_bind (ho : Rising o) (ho' : Rising o') (hf : ∀ a, Rising (f a))
    (hf' : ∀ a, Rising (f' a)) (h : Follows R o o')
    (hstep : ∀ a a', R a a' → Follows S (f a) (f' a')) :
    Follows S (fun b => o b >>= fun a => f a b) (fun b => o' b >>= fun a => f' a b) := by
  intro r hr
  rcases (means_bind ho hf).1 hr with ⟨e, he, rfl⟩ | ⟨a, ha, hr⟩
  · obtain ⟨_, he', hcorr⟩ := h _ he
    cases hcorr
    exact ⟨.error e, (means_bind ho' hf').2 (.inl ⟨e, he', rfl⟩), .error e⟩
  · obtain ⟨_, ha', hcorr⟩ := h _ ha
    cases hcorr with
    | ok hR =>
      obtain ⟨r', hr', hcorr⟩ := hstep _ _ hR _ hr
      exact ⟨r', (means_bind ho' hf').2 (.inr ⟨_, ha', hr'⟩), hcorr⟩

/-- One reading after another means the same if both do and the values between are related. -/
theorem Same.bind (h : Same R o o') (hf : ∀ a, Rising (f a)) (hf' : ∀ a, Rising (f' a))
    (hstep : ∀ a a', R a a' → Same S (f a) (f' a')) :
    Same S (fun b => o b >>= fun a => f a b) (fun b => o' b >>= fun a => f' a b) where
  rising := rising_bind h.rising hf
  rising' := rising_bind h.rising' hf'
  forth := follows_bind h.rising h.rising' hf hf' h.forth fun a a' ha => (hstep a a' ha).forth
  back := follows_bind h.rising' h.rising hf' hf h.back fun a' a ha => (hstep a a' ha).back

/-! ## Values at once -/

/-- Readings that give values mean them. -/
theorem same_of_gives (ho : Rising o) (ho' : Rising o') {b c : Nat} {a : α} {a' : α'}
    (h : Gives (o b) (.ok a)) (h' : Gives (o' c) (.ok a')) (ha : R a a') : Same R o o' where
  rising := ho
  rising' := ho'
  forth := by
    rintro r ⟨d, hd⟩
    obtain rfl := ho.unique hd h
    exact ⟨_, ⟨c, h'⟩, .ok ha⟩
  back := by
    rintro r ⟨d, hd⟩
    obtain rfl := ho'.unique hd h'
    exact ⟨_, ⟨b, h⟩, .ok ha⟩

theorem same_pure {a : α} {a' : α'} (h : R a a') : Same R (fun _ => pure a) fun _ => pure a' :=
  same_of_gives (rising_const _) (rising_const _) (gives_pure.2 rfl) (gives_pure.2 rfl) h
    (b := 0) (c := 0)

theorem Same.refl (ho : Rising o) : Same Eq o o := by
  have hself (r : Except Error α) : Corresponds Eq r r ∧ Corresponds (flip Eq) r r := by
    cases r with
    | error e => exact ⟨.error e, .error e⟩
    | ok a => exact ⟨.ok rfl, .ok rfl⟩
  exact ⟨ho, ho, fun r hr => ⟨r, hr, (hself r).1⟩, fun r hr => ⟨r, hr, (hself r).2⟩⟩

/-- Readings of one meaning are related by every relation that relates each value to itself. -/
theorem Same.of_eq {o₁ o₂ : Nat → Reading α} (h : Same Eq o₁ o₂) {R : α → α → Prop}
    (hR : ∀ a, R a a) : Same R o₁ o₂ := by
  refine ⟨h.rising, h.rising', fun r hr => ?_, fun r hr => ?_⟩
  · obtain ⟨r', hr', hcorr⟩ := h.forth r hr
    exact ⟨r', hr', hcorr.imp fun a a' heq => heq ▸ hR a⟩
  · obtain ⟨r', hr', hcorr⟩ := h.back r hr
    exact ⟨r', hr', hcorr.imp fun a a' (heq : a' = a) => heq ▸ hR a'⟩

/-- Readings of the same values have the same meanings. -/
theorem Same.means_iff {o₁ o₂ : Nat → Reading α} (h : Same Eq o₁ o₂) {r : Except Error α} :
    Means o₁ r ↔ Means o₂ r := by
  constructor
  · intro hr
    obtain ⟨r', hr', hcorr⟩ := h.forth r hr
    cases hcorr with
    | error => exact hr'
    | ok heq => exact heq ▸ hr'
  · intro hr
    obtain ⟨r', hr', hcorr⟩ := h.back r hr
    cases hcorr with
    | error => exact hr'
    | ok heq => exact heq ▸ hr'

/-! ## One more level of nesting -/

/-- A unit of the budget that is spent on one more level does not change the meaning. -/
theorem means_succ {o p : Nat → Reading α} (hzero : o 0 = Walk.unfinished)
    (hsucc : ∀ c, o (c + 1) = p c) {r : Except Error α} : Means o r ↔ Means p r := by
  constructor
  · rintro ⟨_ | b, h⟩
    · rw [hzero] at h
      exact absurd h not_gives_unfinished
    · exact ⟨b, hsucc b ▸ h⟩
  · rintro ⟨b, h⟩
    exact ⟨b + 1, (hsucc b).symm ▸ h⟩

/-- Readings that spend budget on one more level on both sides. -/
theorem Same.succ {p : Nat → Reading α} {p' : Nat → Reading α'} (h : Same R p p')
    (ho : Rising o) (ho' : Rising o') (hzero : o 0 = Walk.unfinished)
    (hsucc : ∀ c, o (c + 1) = p c) (hzero' : o' 0 = Walk.unfinished)
    (hsucc' : ∀ c, o' (c + 1) = p' c) : Same R o o' where
  rising := ho
  rising' := ho'
  forth := by
    intro r hr
    obtain ⟨r', hr', hcorr⟩ := h.forth r ((means_succ hzero hsucc).1 hr)
    exact ⟨r', (means_succ hzero' hsucc').2 hr', hcorr⟩
  back := by
    intro r hr
    obtain ⟨r', hr', hcorr⟩ := h.back r ((means_succ hzero' hsucc').1 hr)
    exact ⟨r', (means_succ hzero hsucc).2 hr', hcorr⟩

end

/-! ## Readings of lists -/

section

variable {S : List β → List β' → Prop} {f : α → Nat → Reading (List β)}
  {f' : α' → Nat → Reading (List β')} (hf : ∀ a, Rising (f a)) (hf' : ∀ a, Rising (f' a))
  (happend : ∀ {x x' y y'}, S x x' → S y y' → S (x ++ y) (x' ++ y'))

include hf hf' happend

/-- Lists that mean the same may be put one behind the other. -/
theorem same_collect_append {as bs : List α} {as' bs' : List α'}
    (h : Same S (fun b => Walk.collect (fun a => f a b) as)
      fun b => Walk.collect (fun a => f' a b) as')
    (h' : Same S (fun b => Walk.collect (fun a => f a b) bs)
      fun b => Walk.collect (fun a => f' a b) bs') :
    Same S (fun b => Walk.collect (fun a => f a b) (as ++ bs))
      fun b => Walk.collect (fun a => f' a b) (as' ++ bs') := by
  simp only [Walk.collect_append]
  refine h.bind (fun _ => ?_) (fun _ => ?_) fun x x' hx => ?_
  · exact rising_bind (rising_collect hf bs) fun _ => rising_const _
  · exact rising_bind (rising_collect hf' bs') fun _ => rising_const _
  · exact h'.bind (fun _ => rising_const _) (fun _ => rising_const _) fun y y' hy =>
      same_pure (happend hx hy)

/-- Lists mean the same if their elements do, one by one. -/
theorem same_collect (hnil : S [] []) {as : List α} {as' : List α'}
    (h : List.Forall₂ (fun a a' => Same S (f a) (f' a')) as as') :
    Same S (fun b => Walk.collect (fun a => f a b) as)
      fun b => Walk.collect (fun a => f' a b) as' := by
  induction h with
  | nil => exact same_pure hnil
  | @cons a a' as as' ha _ ih =>
    have hhead : Same S (fun b => Walk.collect (fun a => f a b) [a])
        fun b => Walk.collect (fun a => f' a b) [a'] := by
      simp only [Walk.collect_singleton]
      exact ha
    have hboth := same_collect_append hf hf' happend hhead ih
    exact hboth

end

/-- What readings of the elements of a list give with a budget of their own they give, with
enough of it, on the list. -/
theorem means_collect {f : α → Reading (List β)} {g : α → Nat → Reading (List β)}
    (hg : ∀ a, Rising (g a)) {as : List α} {r : Except Error (List β)}
    (hfg : ∀ a ∈ as, ∀ r, Gives (f a) r → Means (g a) r) (h : Gives (Walk.collect f as) r) :
    Means (fun b => Walk.collect (fun a => g a b) as) r := by
  induction as generalizing r with
  | nil => exact ⟨0, h⟩
  | cons a as ih =>
    have hhead := hfg a List.mem_cons_self
    have hrest {r} := ih (r := r) fun a' ha' => hfg a' (List.mem_cons_of_mem a ha')
    rcases gives_collect_cons.1 h with
      ⟨e, ha, rfl⟩ | ⟨here, e, ha, has, rfl⟩ | ⟨here, rest, ha, has, rfl⟩
    · obtain ⟨b, hb⟩ := hhead _ ha
      exact ⟨b, gives_collect_cons.2 (.inl ⟨e, hb, rfl⟩)⟩
    all_goals
      obtain ⟨b, hb, hc⟩ := (hhead _ ha).both (hg a) (rising_collect hg as) (hrest has)
    · exact ⟨b, gives_collect_cons.2 (.inr (.inl ⟨here, e, hb, hc, rfl⟩))⟩
    · exact ⟨b, gives_collect_ok_cons.2 ⟨here, rest, hb, hc, rfl⟩⟩

/-- Readings that mean the same on the elements of two lists mean the same on the lists. -/
theorem same_collect_eq {f : α → Nat → Reading (List β)} {f' : α' → Nat → Reading (List β)}
    (hf : ∀ a, Rising (f a)) (hf' : ∀ a, Rising (f' a)) {as : List α} {as' : List α'}
    (h : List.Forall₂ (fun a a' => Same Eq (f a) (f' a')) as as') :
    Same Eq (fun b => Walk.collect (fun a => f a b) as)
      fun b => Walk.collect (fun a => f' a b) as' :=
  same_collect hf hf' (fun hx hy => hx ▸ hy ▸ rfl) rfl h

end AtomicCss.Reading
