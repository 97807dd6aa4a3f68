import AtomicCss.Proofs.Plugin.Preflights
import AtomicCss.Proofs.Variables.Leaves
import Mathlib.Data.List.TakeWhile

/-!
# Configurations one after the other

The hook of one plugin of variables can be called again, with another configuration. What it
has declared afterwards is told by the last call alone, be it that the call failed: then it is what
the walk came across before it failed.

- `Variables.Round`, `Variables.Rounds`: a sequence of calls.
- `Variables.flattening`, `Variables.beginning`: all that a configuration declares, and what the
  walk declares of it.
- `Variables.lastResolved`: what the last configuration declares that was accepted.
- `Variables.Rounds.declared_eq_iff`: what is declared after a call.
-/

namespace AtomicCss

open Json

variable {σ : Type}

namespace Variables

/-- A call of the hook: the configuration that it is given, its answer, and what is declared
afterwards. -/
structure Round where
  given : Settling
  answer : Except Error (Option Settling)
  declared : List (String × String)

/-- Calls of the hook of one plugin, one after the other. What it declares in the beginning comes
first. -/
inductive Rounds (σ : Type) : List (String × String) → List Round → Prop
  | nil (declared : List (String × String)) : Rounds σ declared []
  | cons {declared : List (String × String)} {r : Round} {rounds : List Round} {s s' : σ} :
      (Plugin.variables declared).configSettled r.given s =
        some (r.answer, .variables r.declared, s') →
      Rounds σ r.declared rounds → Rounds σ declared (r :: rounds)

/-- The leaves of the entry of a configuration, if there is an entry. -/
def leavesIn (c : Config) : List Located :=
  match Table.get? c.extra "variables" with
  | some value => value.leaves
  | none => []

/-- What all leaves of a configuration declare. -/
def flattening (c : Config) : List (String × String) :=
  (leavesIn c).filterMap (declares c.namePrefix "")

/-- What the leaves in front of the first one declare that is not supported. -/
def beginning (c : Config) : List (String × String) :=
  ((leavesIn c).takeWhile fun l => isSupported l.value).filterMap (declares c.namePrefix "")

/-- What the last configuration declares that was accepted; nothing if none was. -/
def lastResolved (rounds : List Round) : List (String × String) :=
  match (rounds.filter fun r => r.answer.isOk).getLast? with
  | some r => flattening r.given.1
  | none => []

variable {c : Config} {declared : List (String × String)} {r : Round}
  {earlier later : List Round} {before after : List Located} {bad : Located}

/-! ## One call -/

theorem collectEntry_eq (c : Config) : collectEntry c = declare c.namePrefix "" (leavesIn c) := by
  rw [collectEntry, leavesIn]
  cases Table.get? c.extra "variables" with
  | none => rfl
  | some value => exact collect_eq value

theorem beginning_of_supported (h : ∀ l ∈ leavesIn c, isSupported l.value = true) :
    beginning c = flattening c := by
  rw [beginning, List.takeWhile_eq_self_iff.2 h, flattening]

theorem beginning_of_not_supported (hleaves : leavesIn c = before ++ bad :: after)
    (hbefore : ∀ l ∈ before, isSupported l.value = true) (hbad : isSupported bad.value = false) :
    beginning c = before.filterMap (declares c.namePrefix "") := by
  rw [beginning, hleaves, List.takeWhile_append_of_pos hbefore,
    List.takeWhile_cons_of_neg (by simp [hbad]), List.append_nil]

/-- What a call comes to: all leaves are declared and their block is added, or the call fails at
the first leaf that is not supported. -/
structure Answers (r : Round) : Prop where
  declared_eq : r.declared = beginning r.given.1
  accepted : (∀ l ∈ leavesIn r.given.1, isSupported l.value = true) →
    r.answer = .ok (some (r.given.1.addPreflights (installed r.declared), r.given.2))
  rejected : ∀ before bad after, leavesIn r.given.1 = before ++ bad :: after →
    (∀ l ∈ before, isSupported l.value = true) → isSupported bad.value = false →
    r.answer = .error (complaint "" bad)

theorem answers_of_configSettled {s s' : σ}
    (h : (Plugin.variables declared).configSettled r.given s =
      some (r.answer, .variables r.declared, s')) : Answers r := by
  rw [Plugin.configSettled_variables_eq, collectEntry_eq] at h
  obtain ⟨hanswer, hplugin⟩ := Prod.mk.inj (Option.some.inj h)
  have hdeclared := Plugin.variables.inj (Prod.mk.inj hplugin).1
  refine ⟨?_, fun hsupported => ?_, fun before bad after hleaves hbefore hbad => ?_⟩
  · rcases supported_or_exists_bad (leavesIn r.given.1) with
      hsupported | ⟨before, bad, after, hleaves, hbefore, hbad⟩
    · rw [← hdeclared, declare_of_supported hsupported, beginning_of_supported hsupported]
      rfl
    · rw [← hdeclared, beginning_of_not_supported hleaves hbefore hbad, hleaves,
        declare_of_not_supported hbefore hbad]
  · rw [← hanswer, hdeclared, declare_of_supported hsupported]
    rfl
  · rw [← hanswer, hleaves, declare_of_not_supported hbefore hbad]
    rfl

theorem Answers.isOk_iff (h : Answers r) :
    r.answer.isOk = true ↔ ∀ l ∈ leavesIn r.given.1, isSupported l.value = true := by
  constructor
  · intro hok
    rcases supported_or_exists_bad (leavesIn r.given.1) with
      hsupported | ⟨before, bad, after, hleaves, hbefore, hbad⟩
    · exact hsupported
    · rw [h.rejected before bad after hleaves hbefore hbad] at hok
      cases hok
  · intro hsupported
    rw [h.accepted hsupported]
    rfl

/-! ## Sequences of calls -/

/-- Each call of a sequence is answered for itself. -/
theorem Rounds.answers (h : Rounds σ declared (earlier ++ r :: later)) : Answers r := by
  induction earlier generalizing declared with
  | nil =>
    cases h with
    | cons hcall _ => exact answers_of_configSettled hcall
  | cons r' earlier ih =>
    cases h with
    | cons _ hrest => exact ih hrest

theorem lastResolved_append_singleton (rounds : List Round) (r : Round) :
    lastResolved (rounds ++ [r]) =
      if r.answer.isOk then flattening r.given.1 else lastResolved rounds := by
  rw [lastResolved, List.filter_append]
  cases h : r.answer.isOk with
  | true => simp [h]
  | false => simp [h, lastResolved]

/-- What is declared after a call. A call is accepted if all leaves of its configuration are
supported; then they are declared, and the block of what is declared is added. Any other call
fails, with the path of the first leaf that is not supported; it adds nothing, since it has no
configuration for an answer, but it leaves declared what stands in front of this leaf. So what is
declared is the flattening of the last configuration that was accepted exactly if the call was
accepted itself, or if what stands in front of the leaf is the same as this flattening. -/
theorem Rounds.declared_eq_iff (h : Rounds σ [] (earlier ++ r :: later)) :
    (r.answer.isOk = true ↔ ∀ l ∈ leavesIn r.given.1, isSupported l.value = true) ∧
    (r.answer.isOk = true → r.declared = flattening r.given.1 ∧
      r.answer = .ok (some (r.given.1.addPreflights (installed r.declared), r.given.2))) ∧
    (∀ before bad after, leavesIn r.given.1 = before ++ bad :: after →
      (∀ l ∈ before, isSupported l.value = true) → isSupported bad.value = false →
      r.declared = before.filterMap (declares r.given.1.namePrefix "") ∧
        r.answer = .error (complaint "" bad)) ∧
    (r.declared = lastResolved (earlier ++ [r]) ↔
      r.answer.isOk = true ∨ beginning r.given.1 = lastResolved earlier) := by
  have hr := h.answers
  have haccepted (hok : r.answer.isOk = true) : r.declared = flattening r.given.1 := by
    rw [hr.declared_eq, beginning_of_supported (hr.isOk_iff.1 hok)]
  refine ⟨hr.isOk_iff, fun hok => ⟨haccepted hok, hr.accepted (hr.isOk_iff.1 hok)⟩,
    fun before bad after hleaves hbefore hbad => ⟨?_, hr.rejected _ _ _ hleaves hbefore hbad⟩, ?_⟩
  · rw [hr.declared_eq, beginning_of_not_supported hleaves hbefore hbad]
  · rw [lastResolved_append_singleton]
    split
    · next hok => exact iff_of_true (haccepted hok) (.inl hok)
    · next hok => rw [or_iff_right hok, hr.declared_eq]

/-- A configuration with these variables. -/
def withVariables (fields : List (String × Json)) : Settling :=
  ({ extra := [("variables", .object fields)] }, [])

/-- The call that accepts one variable. -/
def acceptedRound : Round where
  given := withVariables [("a", .string "1")]
  answer := .ok (some ((withVariables [("a", .string "1")]).1.addPreflights
    [.css ":root\x7b--a:1\x7d"], []))
  declared := [("--a", "1")]

/-- The next call fails in a group, behind the same variable: it stays declared. -/
theorem Rounds.declared_eq_iff_same :
    let fields : List (String × Json) :=
      [("a", .string "1"), ("b", .object [("c", .null), ("d", .array [])])]
    let r : Round := ⟨withVariables fields,
      .error (.invalidFormat (.badVariable "b-d" (.array []))), [("--a", "1")]⟩
    Rounds Unit [] ([acceptedRound] ++ r :: []) ∧ r.answer.isOk = false ∧
      beginning r.given.1 = lastResolved [acceptedRound] ∧
      r.declared = lastResolved ([acceptedRound] ++ [r]) := by
  intro fields r
  have hrounds : Rounds Unit [] ([acceptedRound] ++ r :: []) :=
    .cons (s := ()) (by rfl) (.cons (s := ()) (by rfl) (.nil _))
  have hsame : beginning r.given.1 = lastResolved [acceptedRound] := by rfl
  obtain ⟨-, -, -, hiff⟩ := hrounds.declared_eq_iff
  exact ⟨hrounds, rfl, hsame, hiff.2 (.inr hsame)⟩

/-- The next call fails behind another variable: the first one, from the configuration that was
accepted, is no longer declared, and the other one is. -/
theorem declared_lost_of_rejected :
    let r : Round := ⟨withVariables [("b", .string "2"), ("c", .bool true)],
      .error (.invalidFormat (.badVariable "c" (.bool true))), [("--b", "2")]⟩
    Rounds Unit [] [acceptedRound, r] ∧ acceptedRound.answer.isOk = true ∧
      r.answer.isOk = false ∧ lastResolved [acceptedRound, r] = [("--a", "1")] ∧
      r.declared ≠ lastResolved [acceptedRound, r] ∧ r.declared ≠ acceptedRound.declared := by
  intro r
  have hrounds : Rounds Unit [] [acceptedRound, r] :=
    .cons (s := ()) (by rfl) (.cons (s := ()) (by rfl) (.nil _))
  have hlast : lastResolved [acceptedRound, r] = [("--a", "1")] := by rfl
  exact ⟨hrounds, rfl, rfl, hlast, hlast ▸ by decide, by decide⟩

end Variables

end AtomicCss
