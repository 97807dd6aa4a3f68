import AtomicCss.Proofs.Alias.Expansion

/-!
# The past of rules does not show

Rules that have been asked any number of times, successfully or not, still answer
like rules that have not been asked yet: with the unfolding of the input. After a
success even a simple lookup gives the whole unfolding.

- `AliasRules.History`: what can have happened to rules that are not changed.
- `AliasRules.Exact`: what it means that the past does not show.
- `AliasKind.expand`: the expansion of selectors, or of shortcuts.
- `AliasRules.History.exact`: the past does not show for either of them.
-/

namespace AtomicCss

open Reading Relation

variable {α β : Type}

namespace AliasRules

/-- What rules can have become while they were asked for expansions, in the way
`deep`, and for single answers. -/
inductive History (deep : Nat → String → Walk (AliasRules (List α)) β)
    (fresh : AliasRules (List α)) : AliasRules (List α) → Prop
  | start : History deep fresh fresh
  | expanded {budget : Nat} {input : String} {result : Except Error β}
      {r r' : AliasRules (List α)} :
      History deep fresh r → deep budget input r = some (result, r') → History deep fresh r'
  | lookedUp {r : AliasRules (List α)} (input : String) :
      History deep fresh r → History deep fresh (r.resolve input).2

/-- The rules `r` answer to an input like the rules `fresh`, which have not been
asked yet: with `result`, which stands for the unfolding `answer`. If that is an
expansion, nothing in it has an answer any more, and afterwards the answers to the
input and to all names below it are their whole unfoldings. -/
structure Exact (kind : AliasKind) (name? : α → Option String)
    (deep : Nat → String → Walk (AliasRules (List α)) β) (fresh r : AliasRules (List α))
    (budget : Nat) (input : String) (answer : Except Error (Option (List α)))
    (result : Except Error β) : Prop where
  fresh_gives : ∃ r', deep budget input fresh = some (result, r')
  gives : ∃ r', deep budget input r = some (result, r')
  gives_only : ∀ {c other r'}, deep c input r = some (other, r') → other = result
  settled : ∀ {full}, answer = .ok (some full) →
    ∀ a ∈ full, ∀ name, name? a = some name → fresh.lookup? name = none
  remembered : ∀ {c full r'}, answer = .ok (some full) →
    deep c input r = some (result, r') → (r'.resolve input).1 = some full ∧
      ∀ y, ReflTransGen (Mentions name? fresh.lookup?) input y → fresh.lookup? y ≠ none →
        ∃ inner, Unfolds kind name? fresh.lookup? y inner ∧ (r'.resolve y).1 = some inner

/-! ## One expansion at a time -/

section

variable {kind : AliasKind} {name? : α → Option String} {lookup? : String → Option (List α)}
  {r r' fresh : AliasRules (List α)}

/-- Below an unfolded answer all answers are unfolded, however deep. -/
theorem Sound.flat_of_reach {x y : String} (h : Sound kind name? lookup? r)
    (hx : Flat kind name? lookup? r x) (hreach : ReflTransGen (Mentions name? lookup?) x y)
    (hy : lookup? y ≠ none) : Flat kind name? lookup? r y := by
  induction hreach with
  | refl => exact hx
  | tail _ hmentions ih =>
    exact h.below (ih (lookup_ne_none_of_transGen (.single hmentions))) hmentions hy

variable {deep : Nat → String → Walk (AliasRules (List α)) β}
  {view : String → Option (List α) → β}

/-- Sound rules stay sound whatever they are asked. -/
theorem History.sound
    (hdeep : ∀ {b input r res r'}, deep b input r = some (res, r') ↔
      ∃ o, expand kind name? b [] input r = some (o, r') ∧ res = o.map (view input))
    (hfresh : fresh.memo = {}) (h : History deep fresh r) :
    Sound kind name? fresh.lookup? r := by
  induction h with
  | start => exact sound_of_fresh hfresh
  | expanded _ hcall ih =>
    obtain ⟨o, hexpand, -⟩ := hdeep.1 hcall
    exact (expand_done ih (.nil _ _ _) hexpand).later.sound
  | lookedUp input _ ih =>
    rcases resolve_cases ih input with ⟨-, hresolve⟩ | ⟨v, r', hresolve, hlater, -⟩
    · rw [hresolve]
      exact ih
    · rw [hresolve]
      exact hlater.sound

theorem History.exact_of_expand
    (hdeep : ∀ {b input r res r'}, deep b input r = some (res, r') ↔
      ∃ o, expand kind name? b [] input r = some (o, r') ∧ res = o.map (view input))
    (hfresh : fresh.memo = {}) (h : History deep fresh r) {b : Nat} {input : String}
    {answer : Except Error (Option (List α))}
    (hends : Gives (unfold kind name? fresh.lookup? b [] input) answer) :
    Exact kind name? deep fresh r b input answer (answer.map (view input)) := by
  have hsound : Sound kind name? fresh.lookup? r := h.sound hdeep hfresh
  have hnil := LeadTo.nil name? fresh.lookup? input
  have hfollows {r} (hr : Sound kind name? fresh.lookup? r) :
      ∃ r', deep b input r = some (answer.map (view input), r') := by
    obtain ⟨r', hr'⟩ := expand_follows hr hnil hends
    exact ⟨r', hdeep.2 ⟨answer, hr', rfl⟩⟩
  -- whatever the budget, the expansion has come to the unfolding
  have honly {c o r'} (h : expand kind name? c [] input r = some (o, r')) : o = answer := by
    obtain ⟨-, ⟨d, hd⟩, -⟩ := expand_done hsound hnil h
    exact (rising_unfold [] input).unique hd hends
  refine ⟨hfollows (sound_of_fresh hfresh), hfollows hsound, ?_, ?_, ?_⟩
  · intro c other r' hcall
    obtain ⟨o, hexpand, rfl⟩ := hdeep.1 hcall
    rw [honly hexpand]
  · rintro full rfl a ha name hname
    exact (Unfolds.of_unfold hends).settled ha hname
  · rintro c full r' rfl hcall
    obtain ⟨o, hexpand, -⟩ := hdeep.1 hcall
    obtain rfl := honly hexpand
    have hfull : Unfolds kind name? fresh.lookup? input full := .of_unfold hends
    have hinput : fresh.lookup? input ≠ none := by
      obtain ⟨v, hv⟩ := hfull.exists_lookup
      simp [hv]
    -- the input is unfolded afterwards, and with it all that it leads to
    obtain ⟨hlater, -, hflat⟩ := expand_done hsound hnil hexpand
    have hflat' := hflat _ rfl input rfl hinput
    refine ⟨hflat'.resolve hfull, fun y hreach hy => ?_⟩
    obtain ⟨inner, hget, hinner⟩ := hlater.sound.flat_of_reach hflat' hreach hy
    exact ⟨inner, hinner, Flat.resolve ⟨inner, hget, hinner⟩ hinner⟩

end

/-! ## Selectors and shortcuts -/

theorem expandSelector_eq_some {b : Nat} {selector : String} {r r' : AliasRules (List String)}
    {res : Except Error (List String)} :
    expandSelector b selector r = some (res, r') ↔
      ∃ o, expand .selector some b [] selector r = some (o, r') ∧
        res = o.map fun full => full.getD [selector] := by
  rw [expandSelector_eq]
  exact Walk.map_eq_some

theorem expandShortcut_eq_some {b : Nat} {name : String} {r r' : AliasRules (List StyleItem)}
    {res : Except Error (Option (List StyleItem))} :
    expandShortcut b name r = some (res, r') ↔
      ∃ o, expand .shortcut StyleItem.shortcut? b [] name r = some (o, r') ∧
        res = o.map fun full => full := by
  unfold expandShortcut
  constructor
  · intro h
    exact ⟨res, h, by cases res <;> rfl⟩
  · rintro ⟨o, h, rfl⟩
    cases o <;> exact h

end AliasRules

namespace AliasKind

open AliasRules

/-- What the answers of aliases are made of. -/
@[reducible] def Element : AliasKind → Type
  | .selector => String
  | .shortcut => StyleItem

/-- The name of an element that can be an alias again. -/
def name? : (kind : AliasKind) → kind.Element → Option String
  | .selector => some
  | .shortcut => StyleItem.shortcut?

/-- What a name is expanded to: a selector without an answer stands for itself, a shortcut
without an answer for nothing. -/
@[reducible] def Expansion : AliasKind → Type
  | .selector => List String
  | .shortcut => Option (List StyleItem)

/-- The expansion of names of a kind. -/
def expand : (kind : AliasKind) → Nat → String →
    Walk (AliasRules (List kind.Element)) kind.Expansion
  | .selector => expandSelector
  | .shortcut => expandShortcut

/-- What the unfolding of a name is for a caller. -/
def view : (kind : AliasKind) → String → Option (List kind.Element) → kind.Expansion
  | .selector, input, full => full.getD [input]
  | .shortcut, _, full => full

theorem expand_eq_some {kind : AliasKind} {b : Nat} {input : String}
    {r r' : AliasRules (List kind.Element)} {res : Except Error kind.Expansion} :
    kind.expand b input r = some (res, r') ↔
      ∃ o, AliasRules.expand kind kind.name? b [] input r = some (o, r') ∧
        res = o.map (kind.view input) := by
  cases kind with
  | selector => exact expandSelector_eq_some
  | shortcut => exact expandShortcut_eq_some

end AliasKind

namespace AliasRules

/-- Rules that have been asked before answer like rules that have not, wherever
the unfolding of the input ends: a selector without an answer by itself, a shortcut
without an answer by nothing, a cycle by an error with its names in order, and
everything else by its whole unfolding. -/
theorem History.exact :
    (∀ (fresh r : AliasRules (List String)) (budget : Nat) (selector : String)
        (answer : Except Error (Option (List String))),
      fresh.memo = {} → History expandSelector fresh r →
      Gives (unfold .selector some fresh.lookup? budget [] selector) answer →
      Exact .selector some expandSelector fresh r budget selector answer
        (answer.map fun full => full.getD [selector])) ∧
    (∀ (fresh r : AliasRules (List StyleItem)) (budget : Nat) (name : String)
        (answer : Except Error (Option (List StyleItem))),
      fresh.memo = {} → History expandShortcut fresh r →
      Gives (unfold .shortcut StyleItem.shortcut? fresh.lookup? budget [] name) answer →
      Exact .shortcut StyleItem.shortcut? expandShortcut fresh r budget name answer answer) := by
  refine ⟨fun fresh r budget selector answer hfresh h hends => ?_,
    fun fresh r budget name answer hfresh h hends => ?_⟩
  · exact h.exact_of_expand expandSelector_eq_some hfresh hends
  · have hexact := h.exact_of_expand expandShortcut_eq_some hfresh hends
    cases answer <;> exact hexact

/-- Two aliases, one of which mentions the other, and one that leads to itself. -/
def someAliases : AliasRules (List String) where
  statics := [("@dark", ⟨"@dark", "@dark", ["hover", "&.dark"]⟩),
    ("hover", ⟨"hover", "hover", ["&:hover"]⟩), ("loop", ⟨"loop", "loop", ["hover", "loop"]⟩)]

/-- What `someAliases` remember after a failure and a simple lookup: one answer
that is unfolded and two that are not. -/
def someAliasesAsked : AliasRules (List String) :=
  ((someAliases.remember "loop" ["hover", "loop"]).remember "hover" ["&:hover"]).remember
    "@dark" ["hover", "&.dark"]

/-- A failed expansion and a lookup do not show in the expansion of an alias, nor
does a failed expansion of a shortcut. -/
theorem History.exact_someAliases :
    Exact .selector some expandSelector someAliases someAliasesAsked 3 "@dark"
        (.ok (some ["&:hover", "&.dark"])) (.ok ["&:hover", "&.dark"]) ∧
      Exact .shortcut StyleItem.shortcut? expandShortcut
        { statics := [("s", ⟨"s", "s", [.shortcut "s"]⟩)] }
        ({ statics := [("s", ⟨"s", "s", [.shortcut "s"]⟩)] : AliasRules (List StyleItem) }.remember
          "s" [.shortcut "s"]) 3 "s"
        (.error (.cyclic .shortcut ["s", "s"])) (.error (.cyclic .shortcut ["s", "s"])) := by
  constructor
  · have hfailed : expandSelector 3 "loop" someAliases =
        some (.error (.cyclic .selector ["loop", "loop"]),
          (someAliases.remember "loop" ["hover", "loop"]).remember "hover" ["&:hover"]) := by rfl
    have hhistory : History expandSelector someAliases someAliasesAsked :=
      .lookedUp "@dark" (.expanded .start hfailed)
    have hends : Gives (unfold .selector some someAliases.lookup? 3 [] "@dark")
        (.ok (some ["&:hover", "&.dark"])) := by rfl
    exact History.exact.1 _ _ _ _ _ rfl hhistory hends
  · have hfailed : expandShortcut 2 "s" { statics := [("s", ⟨"s", "s", [.shortcut "s"]⟩)] } =
        some (.error (.cyclic .shortcut ["s", "s"]),
          ({ statics := [("s", ⟨"s", "s", [.shortcut "s"]⟩)] : AliasRules _ }.remember
            "s" [.shortcut "s"])) := by rfl
    exact History.exact.2 _ _ 3 _ _ rfl (.expanded .start hfailed) (by rfl)

end AliasRules

end AtomicCss
