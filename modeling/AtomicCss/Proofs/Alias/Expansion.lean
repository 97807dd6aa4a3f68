import AtomicCss.Alias.Expansion
import AtomicCss.Proofs.Alias.Remembered

/-!
# Expansion unfolds

From sound rules the expansion of an alias comes to what its unfolding gives,
whatever is remembered. The names of the path all lead to the input, which is why
an unfolded answer cannot hide a cycle: if it led back into the path, it would lead
to itself.

- `AliasRules.expand_succ_run`: what an expansion does, step by step.
- `AliasRules.Done`: a walk has given what readings give and leaves later rules in
  which given names are unfolded.
- `AliasRules.expand_done`: every result of an expansion is given by the unfolding.
- `AliasRules.expand_follows`: the expansion comes to every result of the unfolding.
-/

namespace AtomicCss.AliasRules

open Reading Relation

variable {α : Type}

/-- An element stands for the expansion of its name, or for itself. -/
def expandElement (name? : α → Option String)
    (expansion : String → Walk (AliasRules (List α)) (Option (List α))) (a : α) :
    Walk (AliasRules (List α)) (List α) :=
  match name? a with
  | none => pure [a]
  | some name => do return (← expansion name).getD [a]

theorem expandElements_eq (name? : α → Option String)
    (expansion : String → Walk (AliasRules (List α)) (Option (List α))) :
    expandElements name? expansion = Walk.collect (expandElement name? expansion) := by
  unfold expandElements expandElement
  congr 1
  funext a
  cases name? a with
  | none => rfl
  | some name =>
    show expansion name >>= _ = expansion name >>= _
    congr 1
    funext full
    cases full <;> rfl

/-- A selector stands for its expansion, or for itself. -/
theorem expandSelector_eq (budget : Nat) (selector : String) :
    expandSelector budget selector =
      do return (← expand .selector some budget [] selector).getD [selector] := by
  unfold expandSelector
  congr 1
  funext full
  cases full <;> rfl

variable {kind : AliasKind} {name? : α → Option String} {lookup? : String → Option (List α)}
  {b : Nat} {path : List String} {input : String} {r r' : AliasRules (List α)}

/-! ## One step of an expansion -/

theorem expandElement_eq_some
    {expansion : String → Walk (AliasRules (List α)) (Option (List α))} {a : α}
    {res : Except Error (List α)} :
    expandElement name? expansion a r = some (res, r') ↔
      (name? a = none ∧ res = .ok [a] ∧ r' = r) ∨
      ∃ name answer, name? a = some name ∧ expansion name r = some (answer, r') ∧
        res = answer.map fun full => full.getD [a] := by
  unfold expandElement
  cases name? a with
  | none => simp [eq_comm]
  | some name =>
    refine Walk.map_eq_some.trans ?_
    simp

/-- A name of the path is a cycle; an input without an answer has no expansion;
otherwise the elements of the answer are expanded and the result is remembered. -/
theorem expand_succ_run (b : Nat) (path : List String) (input : String)
    (r : AliasRules (List α)) :
    expand kind name? (b + 1) path input r =
      if input ∈ path then some (.error (.cyclic kind (path ++ [input])), r)
      else match r.resolve input with
        | (none, r₁) => some (.ok none, r₁)
        | (some answer, r₁) =>
          match Walk.collect
              (expandElement name? (expand kind name? b (path ++ [input]))) answer r₁ with
          | none => none
          | some (.error e, r₂) => some (.error e, r₂)
          | some (.ok full, r₂) => some (.ok (some full), r₂.remember input full) := by
  rw [expand]
  by_cases hmem : input ∈ path
  · rw [if_pos hmem, if_pos hmem]
    rfl
  rw [if_neg hmem, if_neg hmem]
  show ((Walk.step fun r => r.resolve input) >>= _) r = _
  rw [Walk.bind_run, Walk.step_run]
  rcases r.resolve input with ⟨_ | answer, r₁⟩
  · rfl
  · show ((expandElements name? _ answer) >>= _) r₁ = _
    dsimp only
    rw [Walk.bind_run, expandElements_eq]
    rcases Walk.collect _ answer r₁ with _ | ⟨_ | _, _⟩ <;> rfl

/-- The rules once the elements of the answer to an input have been expanded: a
success is remembered, an error is not. -/
def noted (r : AliasRules (List α)) (input : String) :
    Except Error (List α) → AliasRules (List α)
  | .ok full => r.remember input full
  | .error _ => r

/-- The expansion of an input that has an answer is that of its elements. -/
theorem expand_eq_some_of_resolve {v : List α} {r₁ : AliasRules (List α)}
    {res : Except Error (Option (List α))} (hmem : input ∉ path)
    (hresolve : r.resolve input = (some v, r₁)) :
    expand kind name? (b + 1) path input r = some (res, r') ↔
      ∃ full r₂, Walk.collect
          (expandElement name? (expand kind name? b (path ++ [input]))) v r₁ = some (full, r₂) ∧
        res = full.map some ∧ r' = r₂.noted input full := by
  rw [expand_succ_run, if_neg hmem, hresolve]
  dsimp only
  rcases Walk.collect _ v r₁ with _ | ⟨full, r₂⟩
  · simp
  constructor
  · intro h
    refine ⟨full, r₂, rfl, ?_⟩
    cases full <;> exact (Prod.mk.inj (Option.some.inj h)).imp Eq.symm Eq.symm
  · rintro ⟨full', r₂', heq, rfl, rfl⟩
    obtain ⟨rfl, rfl⟩ := Prod.mk.inj (Option.some.inj heq)
    cases full <;> rfl

/-! ## Elements without an answer -/

/-- An input without an answer has no expansion, unless the budget is spent. -/
theorem expand_of_settled (hr : Sound kind name? lookup? r) (hinput : lookup? input = none)
    (hpath : input ∉ path) :
    expand kind name? (b + 1) path input r = some (.ok none, r) := by
  have hresolve : r.resolve input = (none, r) := by
    rw [resolve, hr.get?_eq_none hinput, hr.lookup (hr.get?_eq_none hinput), hinput]
  rw [expand_succ_run, if_neg hpath, hresolve]

/-- If no element of a list has an answer, its expansion is the list, if it ends. -/
theorem eq_of_expand_settled (hr : Sound kind name? lookup? r) {full : List α}
    {res : Except Error (List α)}
    (hfull : ∀ a ∈ full, ∀ name, name? a = some name → lookup? name = none ∧ name ∉ path)
    (h : Walk.collect (expandElement name? (expand kind name? b path)) full r = some (res, r')) :
    res = .ok full ∧ r' = r := by
  refine Walk.eq_of_collect_singletons ?_ h
  intro a ha res' r'' helement
  rcases expandElement_eq_some.1 helement with ⟨-, rfl, rfl⟩ | ⟨name, answer, hname, hexp, rfl⟩
  · exact ⟨rfl, rfl⟩
  · -- a name without an answer stands for itself
    obtain ⟨hnone, hpath⟩ := hfull a ha name hname
    cases b with
    | zero => cases hexp
    | succ b =>
      rw [expand_of_settled hr hnone hpath] at hexp
      obtain ⟨rfl, rfl⟩ := Prod.mk.inj (Option.some.inj hexp)
      exact ⟨rfl, rfl⟩

/-- It does end if there is budget for names. -/
theorem expand_settled (hr : Sound kind name? lookup? r) {full : List α}
    (hfull : ∀ a ∈ full, ∀ name, name? a = some name →
      (lookup? name = none ∧ 0 < b) ∧ name ∉ path) :
    Walk.collect (expandElement name? (expand kind name? b path)) full r =
      some (.ok full, r) := by
  refine Walk.collect_singletons fun a ha => expandElement_eq_some.2 ?_
  cases hname : name? a with
  | none => exact .inl ⟨rfl, rfl, rfl⟩
  | some name =>
    obtain ⟨⟨hnone, hb⟩, hpath⟩ := hfull a ha name hname
    obtain ⟨b, rfl⟩ : ∃ b', b = b' + 1 := ⟨b - 1, by omega⟩
    exact .inr ⟨name, _, rfl, expand_of_settled hr hnone hpath, rfl⟩

/-! ## What an expansion gives -/

/-- A walk has come to what readings give, and has led to later rules; if it has
succeeded, the names of `names` that have an answer are unfolded there. -/
structure Done {β : Type} (kind : AliasKind) (name? : α → Option String)
    (lookup? : String → Option (List α)) (r : AliasRules (List α)) (names : String → Prop)
    (o : Nat → Reading β) (res : Except Error β) (r' : AliasRules (List α)) : Prop where
  later : Later kind name? lookup? r r'
  given : ∃ c, Gives (o c) res
  flat : ∀ out, res = .ok out → ∀ y, names y → lookup? y ≠ none →
    Flat kind name? lookup? r' y

theorem Done.after {β : Type} {names : String → Prop} {o : Nat → Reading β}
    {res : Except Error β} {r₁ : AliasRules (List α)}
    (h : Done kind name? lookup? r₁ names o res r') (hlater : Later kind name? lookup? r r₁) :
    Done kind name? lookup? r names o res r' :=
  ⟨hlater.trans h.later, h.given, h.flat⟩

/-- All names of the path lead to the input. -/
def LeadTo (name? : α → Option String) (lookup? : String → Option (List α))
    (path : List String) (input : String) : Prop :=
  ∀ z ∈ path, TransGen (Mentions name? lookup?) z input

theorem LeadTo.nil (name? : α → Option String) (lookup? : String → Option (List α))
    (input : String) : LeadTo name? lookup? [] input :=
  fun _ h => absurd h List.not_mem_nil

/-- The path and the input lead to what the input mentions. -/
theorem LeadTo.mentions {y : String} (h : LeadTo name? lookup? path input)
    (hy : Mentions name? lookup? input y) : LeadTo name? lookup? (path ++ [input]) y := by
  intro z hz
  rcases List.mem_append.1 hz with hz | hz
  · exact (h z hz).tail hy
  · obtain rfl := List.mem_singleton.1 hz
    exact .single hy

/-- What leads somewhere has an answer. -/
theorem lookup_ne_none_of_transGen {x y : String} (h : TransGen (Mentions name? lookup?) x y) :
    lookup? x ≠ none := by
  obtain ⟨z, ⟨answer, hanswer, -⟩, -⟩ := TransGen.head'_iff.1 h
  simp [hanswer]

/-- An input that has an answer but does not have the name of one has a name that
is not on the way to it. -/
theorem LeadTo.notMem_of_settled {name : String} (h : LeadTo name? lookup? path input)
    (hinput : lookup? input ≠ none) (hname : lookup? name = none) :
    name ∉ path ++ [input] := by
  intro hmem
  rcases List.mem_append.1 hmem with hmem | hmem
  · exact lookup_ne_none_of_transGen (h name hmem) hname
  · obtain rfl := List.mem_singleton.1 hmem
    exact hinput hname

/-- If the unfolding of an input succeeds on its own, it succeeds inside a path that
leads to the input. -/
theorem Unfolds.inside {full : List α} (h : Unfolds kind name? lookup? input full)
    (hpath : LeadTo name? lookup? path input) :
    ∃ c, Gives (unfold kind name? lookup? c path input) (.ok (some full)) := by
  obtain ⟨c, hc⟩ := h
  refine ⟨c, unfold_ok_of_apart hc fun y hy hreach => ?_⟩
  -- if the input led back into the path it would lead to itself
  exact not_transGen_self_of_unfold hc (TransGen.trans_right hreach (hpath y hy))

section

variable {expansion : String → Walk (AliasRules (List α)) (Option (List α))}
  {unfolding : Nat → String → Reading (Option (List α))}

theorem rising_unfoldElement (hrising : ∀ name, Rising fun c => unfolding c name) (a : α) :
    Rising fun c => unfoldElement name? (unfolding c) a := by
  intro c d hcd res h
  rw [gives_unfoldElement] at h ⊢
  exact h.imp_right fun ⟨name, answer, hname, hanswer, hres⟩ =>
    ⟨name, answer, hname, hrising name c d hcd _ hanswer, hres⟩

theorem element_done {a : α} {res : Except Error (List α)} (hr : Sound kind name? lookup? r)
    (hexp : ∀ name, name? a = some name → ∀ {res}, expansion name r = some (res, r') →
      Done kind name? lookup? r (fun y => y = name) (fun c => unfolding c name) res r')
    (h : expandElement name? expansion a r = some (res, r')) :
    Done kind name? lookup? r (fun y => name? a = some y)
      (fun c => unfoldElement name? (unfolding c) a) res r' := by
  rcases expandElement_eq_some.1 h with ⟨hnone, rfl, rfl⟩ | ⟨name, answer, hname, hanswer, rfl⟩
  · have hgiven : Gives (unfoldElement name? (unfolding 0) a) (.ok [a]) :=
      gives_unfoldElement.2 (.inl ⟨hnone, rfl⟩)
    refine ⟨Later.refl hr, ⟨0, hgiven⟩, ?_⟩
    intro out _ y hy
    rw [hnone] at hy
    cases hy
  · obtain ⟨hlater, ⟨c, hc⟩, hflat⟩ := hexp name hname hanswer
    have hgiven : Gives (unfoldElement name? (unfolding c) a)
        (answer.map fun full => full.getD [a]) :=
      gives_unfoldElement.2 (.inr ⟨name, answer, hname, hc, rfl⟩)
    refine ⟨hlater, ⟨c, hgiven⟩, ?_⟩
    intro out hout y hy
    obtain rfl : name = y := Option.some.inj (hname.symm.trans hy)
    cases answer with
    | error e => cases hout
    | ok inner => exact hflat inner rfl name rfl

/-- The expansions of the elements of a list, one after the other. -/
theorem collect_done (hrising : ∀ name, Rising fun c => unfolding c name) {as : List α}
    (hexp : ∀ a ∈ as, ∀ name, name? a = some name → ∀ {r res r'},
      Sound kind name? lookup? r → expansion name r = some (res, r') →
      Done kind name? lookup? r (fun y => y = name) (fun c => unfolding c name) res r')
    {r r' : AliasRules (List α)} {res : Except Error (List α)}
    (hr : Sound kind name? lookup? r)
    (h : Walk.collect (expandElement name? expansion) as r = some (res, r')) :
    Done kind name? lookup? r (fun y => ∃ a ∈ as, name? a = some y)
      (fun c => Walk.collect (unfoldElement name? (unfolding c)) as) res r' := by
  induction as generalizing r res with
  | nil =>
    obtain ⟨rfl, rfl⟩ := Prod.mk.inj (Option.some.inj h)
    exact ⟨Later.refl hr, ⟨0, gives_pure.2 rfl⟩, fun _ _ _ ⟨_, ha, _⟩ => nomatch ha⟩
  | cons a as ih =>
    have hexpAs := fun b hb => hexp b (List.mem_cons_of_mem a hb)
    rcases Walk.collect_cons_eq_some.1 h with
      ⟨e, ha, rfl⟩ | ⟨here, r₁, e, ha, has, rfl⟩ | ⟨here, r₁, rest, ha, has, rfl⟩
    · obtain ⟨hlater, ⟨c, hc⟩, -⟩ :=
        element_done hr (fun name hname => hexp a List.mem_cons_self name hname hr) ha
      have hgiven : Gives (Walk.collect (unfoldElement name? (unfolding c)) (a :: as))
          (.error e) := gives_collect_cons.2 (.inl ⟨e, hc, rfl⟩)
      exact ⟨hlater, ⟨c, hgiven⟩, fun _ h => nomatch h⟩
    all_goals
      obtain ⟨hlater, ⟨c, hc⟩, hflat⟩ :=
        element_done hr (fun name hname => hexp a List.mem_cons_self name hname hr) ha
      obtain ⟨hlater', ⟨d, hd⟩, hflat'⟩ := ih hexpAs hlater.sound has
      -- the greater of the two budgets is enough for the element and for the rest
      have hc' := rising_unfoldElement hrising a c (max c d) (Nat.le_max_left c d) _ hc
      have hd' := rising_collect (rising_unfoldElement hrising) as d (max c d)
        (Nat.le_max_right c d) _ hd
    · have hgiven : Gives (Walk.collect (unfoldElement name? (unfolding (max c d))) (a :: as))
          (.error e) := gives_collect_cons.2 (.inr (.inl ⟨here, e, hc', hd', rfl⟩))
      exact ⟨hlater.trans hlater', ⟨max c d, hgiven⟩, fun _ h => nomatch h⟩
    · have hgiven : Gives (Walk.collect (unfoldElement name? (unfolding (max c d))) (a :: as))
          (.ok (here ++ rest)) := gives_collect_ok_cons.2 ⟨here, rest, hc', hd', rfl⟩
      refine ⟨hlater.trans hlater', ⟨max c d, hgiven⟩, ?_⟩
      -- names of the element were unfolded first, and later rules keep them so
      rintro - - y ⟨b, hb, hy⟩ hne
      rcases List.mem_cons.1 hb with rfl | hb
      · exact hlater'.flat y (hflat here rfl y hy hne)
      · exact hflat' rest rfl y ⟨b, hb, hy⟩ hne

/-- The expansions of the elements of a list come to every result of the unfoldings. -/
theorem collect_follows {c : Nat} {as : List α}
    (hexp : ∀ a ∈ as, ∀ name, name? a = some name → ∀ {r res r'},
      Sound kind name? lookup? r → expansion name r = some (res, r') →
      Done kind name? lookup? r (fun y => y = name) (fun c => unfolding c name) res r')
    (hfollows : ∀ a ∈ as, ∀ name, name? a = some name → ∀ {r res},
      Sound kind name? lookup? r → Gives (unfolding c name) res →
      ∃ r', expansion name r = some (res, r'))
    {r : AliasRules (List α)} {res : Except Error (List α)} (hr : Sound kind name? lookup? r)
    (h : Gives (Walk.collect (unfoldElement name? (unfolding c)) as) res) :
    ∃ r', Walk.collect (expandElement name? expansion) as r = some (res, r') := by
  induction as generalizing r res with
  | nil =>
    obtain rfl := gives_pure.1 h
    exact ⟨r, rfl⟩
  | cons a as ih =>
    have ihAs : ∀ {r res}, Sound kind name? lookup? r →
        Gives (Walk.collect (unfoldElement name? (unfolding c)) as) res →
        ∃ r', Walk.collect (expandElement name? expansion) as r = some (res, r') :=
      ih (fun b hb => hexp b (List.mem_cons_of_mem a hb))
        fun b hb => hfollows b (List.mem_cons_of_mem a hb)
    have helement {res} (h : Gives (unfoldElement name? (unfolding c) a) res) :
        ∃ r', expandElement name? expansion a r = some (res, r') := by
      rcases gives_unfoldElement.1 h with ⟨hnone, rfl⟩ | ⟨name, answer, hname, hanswer, rfl⟩
      · exact ⟨r, expandElement_eq_some.2 (.inl ⟨hnone, rfl, rfl⟩)⟩
      · obtain ⟨r', hr'⟩ := hfollows a List.mem_cons_self name hname hr hanswer
        exact ⟨r', expandElement_eq_some.2 (.inr ⟨name, answer, hname, hr', rfl⟩)⟩
    have hsound {res r'} (h : expandElement name? expansion a r = some (res, r')) :
        Sound kind name? lookup? r' :=
      (element_done hr (fun name hname => hexp a List.mem_cons_self name hname hr) h).later.sound
    rcases gives_collect_cons.1 h with
      ⟨e, ha, rfl⟩ | ⟨here, e, ha, has, rfl⟩ | ⟨here, rest, ha, has, rfl⟩
    · obtain ⟨r', hr'⟩ := helement ha
      exact ⟨r', Walk.collect_cons_eq_some.2 (.inl ⟨e, hr', rfl⟩)⟩
    · obtain ⟨r₁, hr₁⟩ := helement ha
      obtain ⟨r', hr'⟩ := ihAs (hsound hr₁) has
      exact ⟨r', Walk.collect_cons_eq_some.2 (.inr (.inl ⟨here, r₁, e, hr₁, hr', rfl⟩))⟩
    · obtain ⟨r₁, hr₁⟩ := helement ha
      obtain ⟨r', hr'⟩ := ihAs (hsound hr₁) has
      exact ⟨r', Walk.collect_cons_eq_some.2 (.inr (.inr ⟨here, r₁, rest, hr₁, hr', rfl⟩))⟩

end

/-- Where the answer of the rules is remembered, its elements are expanded. -/
theorem done_of_lookup {v : List α} {full : Except Error (List α)} {r₁ r₂ : AliasRules (List α)}
    (hmem : input ∉ path) (hanswer : lookup? input = some v)
    (hfull : Done kind name? lookup? r₁ (fun y => ∃ a ∈ v, name? a = some y)
      (fun c => Walk.collect
        (unfoldElement name? (unfold kind name? lookup? c (path ++ [input]))) v) full r₂) :
    Done kind name? lookup? r₁ (fun y => y = input)
      (fun c => unfold kind name? lookup? c path input) (full.map some)
      (r₂.noted input full) := by
  obtain ⟨hlater, ⟨c, hc⟩, hflat⟩ := hfull
  have hgiven : Gives (unfold kind name? lookup? (c + 1) path input) (full.map some) :=
    gives_unfold_succ.2 (.inr (.inr ⟨hmem, v, full, hanswer, hc, rfl⟩))
  cases full with
  | error e => exact ⟨hlater, ⟨c + 1, hgiven⟩, fun _ h => nomatch h⟩
  | ok full =>
    have hunfolds : Unfolds kind name? lookup? input full := .of_unfold hgiven
    -- all names in the answer are unfolded already, so the answer is not alone
    have hbelow (y : String) (hy : Mentions name? lookup? input y)
        (hne : lookup? y ≠ none) : Flat kind name? lookup? r₂ y := by
      obtain ⟨answer, hanswer', a, ha, hname⟩ := hy
      obtain rfl : v = answer := Option.some.inj (hanswer.symm.trans hanswer')
      exact hflat full rfl y ⟨a, ha, hname⟩ hne
    have hlater' := later_remember hlater.sound hunfolds hbelow
    refine ⟨hlater.trans hlater', ⟨c + 1, hgiven⟩, ?_⟩
    rintro - - _ rfl -
    exact ⟨full, get?_remember_self hlater.sound.placed _ full, hunfolds⟩

/-- Where the whole unfolding is remembered, it is given once more. -/
theorem done_of_unfolds {v : List α} {r₁ : AliasRules (List α)}
    (hr₁ : Sound kind name? lookup? r₁) (hpath : LeadTo name? lookup? path input)
    (hget : r₁.memo.get? input = some v) (hfull : Unfolds kind name? lookup? input v) :
    Done kind name? lookup? r₁ (fun y => y = input)
      (fun c => unfold kind name? lookup? c path input) (.ok (some v))
      (r₁.remember input v) := by
  have hflat : Flat kind name? lookup? r₁ input := ⟨v, hget, hfull⟩
  have hlater := later_remember hr₁ hfull fun y hy hne => hr₁.below hflat hy hne
  refine ⟨hlater, hfull.inside hpath, ?_⟩
  rintro - - _ rfl -
  exact hlater.flat _ hflat

/-- Every result of an expansion is given by the unfolding, and after a success the
whole unfolding of the input is remembered. -/
theorem expand_done {r r' : AliasRules (List α)} {res : Except Error (Option (List α))}
    (hr : Sound kind name? lookup? r) (hpath : LeadTo name? lookup? path input)
    (h : expand kind name? b path input r = some (res, r')) :
    Done kind name? lookup? r (fun y => y = input)
      (fun c => unfold kind name? lookup? c path input) res r' := by
  induction b generalizing path input r res r' with
  | zero => cases h
  | succ b ih =>
    by_cases hmem : input ∈ path
    · rw [expand_succ_run, if_pos hmem] at h
      obtain ⟨rfl, rfl⟩ := Prod.mk.inj (Option.some.inj h)
      have hgiven : Gives (unfold kind name? lookup? 1 path input)
          (.error (.cyclic kind (path ++ [input]))) := gives_unfold_succ.2 (.inl ⟨hmem, rfl⟩)
      exact ⟨Later.refl hr, ⟨1, hgiven⟩, fun _ h => nomatch h⟩
    rcases resolve_cases hr input with ⟨hnone, -⟩ | ⟨v, r₁, hresolve, hlater, hget⟩
    · rw [expand_of_settled hr hnone hmem] at h
      obtain ⟨rfl, rfl⟩ := Prod.mk.inj (Option.some.inj h)
      have hgiven : Gives (unfold kind name? lookup? 1 path input) (.ok none) :=
        gives_unfold_ok_none.2 ⟨hmem, hnone⟩
      refine ⟨Later.refl hr, ⟨1, hgiven⟩, ?_⟩
      rintro - - _ rfl hne
      exact absurd hnone hne
    obtain ⟨full, r₂, hcollect, rfl, rfl⟩ := (expand_eq_some_of_resolve hmem hresolve).1 h
    rcases hlater.sound.entry hget with hanswer | hfull
    · -- the answer of the rules is remembered, and its elements are expanded
      have hexp (a) (ha : a ∈ v) (name : String) (hname : name? a = some name)
          {r res r'} (hr : Sound kind name? lookup? r)
          (h : expand kind name? b (path ++ [input]) name r = some (res, r')) :=
        ih hr (hpath.mentions ⟨v, hanswer, a, ha, hname⟩) h
      have hdone := collect_done (fun name => rising_unfold (path ++ [input]) name) hexp
        hlater.sound hcollect
      exact (done_of_lookup hmem hanswer hdone).after hlater
    · -- the whole unfolding is remembered, and none of its elements has an answer
      have hinput : lookup? input ≠ none := by
        obtain ⟨answer, hanswer⟩ := hfull.exists_lookup
        simp [hanswer]
      have hsettled (a) (ha : a ∈ v) (name : String) (hname : name? a = some name) :
          lookup? name = none ∧ name ∉ path ++ [input] :=
        ⟨hfull.settled ha hname, hpath.notMem_of_settled hinput (hfull.settled ha hname)⟩
      obtain ⟨rfl, rfl⟩ := eq_of_expand_settled hlater.sound hsettled hcollect
      exact (done_of_unfolds hlater.sound hpath hget hfull).after hlater

/-- The expansion comes to every result of the unfolding, with the same budget. -/
theorem expand_follows {r : AliasRules (List α)} {res : Except Error (Option (List α))}
    (hr : Sound kind name? lookup? r) (hpath : LeadTo name? lookup? path input)
    (h : Gives (unfold kind name? lookup? b path input) res) :
    ∃ r', expand kind name? b path input r = some (res, r') := by
  induction b generalizing path input r res with
  | zero => exact absurd h not_gives_unfold_zero
  | succ b ih =>
    rcases gives_unfold_succ.1 h with
      ⟨hmem, rfl⟩ | ⟨hmem, hnone, rfl⟩ | ⟨hmem, answer, full, hanswer, hfull, rfl⟩
    · rw [expand_succ_run, if_pos hmem]
      exact ⟨r, rfl⟩
    · exact ⟨r, expand_of_settled hr hnone hmem⟩
    rcases resolve_cases hr input with ⟨hnone, -⟩ | ⟨v, r₁, hresolve, hlater, hget⟩
    · rw [hanswer] at hnone
      cases hnone
    rcases hlater.sound.entry hget with hv | hv
    · -- the elements of the answer are expanded, inside a path that leads to their names
      obtain rfl : answer = v := Option.some.inj (hanswer.symm.trans hv)
      have hlead (a) (ha : a ∈ answer) (name : String) (hname : name? a = some name) :
          LeadTo name? lookup? (path ++ [input]) name :=
        hpath.mentions ⟨answer, hanswer, a, ha, hname⟩
      obtain ⟨r₂, hr₂⟩ := collect_follows
        (fun a ha name hname _ _ _ hr h => expand_done hr (hlead a ha name hname) h)
        (fun a ha name hname _ _ hr h => ih hr (hlead a ha name hname) h) hlater.sound hfull
      exact ⟨_, (expand_eq_some_of_resolve hmem hresolve).2 ⟨full, r₂, hr₂, rfl, rfl⟩⟩
    · -- both the unfolding inside the path and the one that is remembered are `v`
      obtain ⟨c, hc⟩ := hv.inside hpath
      have hres := (rising_unfold path input).unique h hc
      rw [hres] at h ⊢
      have hsettled (a) (ha : a ∈ v) (name : String) (hname : name? a = some name) :
          (lookup? name = none ∧ 0 < b) ∧ name ∉ path ++ [input] := by
        have hnone := settled_of_unfold h ha hname
        exact ⟨hnone, hpath.notMem_of_settled (by simp [hanswer]) hnone.1⟩
      have hcollect := expand_settled hlater.sound hsettled
      exact ⟨_, (expand_eq_some_of_resolve hmem hresolve).2 ⟨.ok v, r₁, hcollect, rfl, rfl⟩⟩

end AtomicCss.AliasRules
