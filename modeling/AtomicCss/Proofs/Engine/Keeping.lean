import AtomicCss.Proofs.Engine.Naming

/-!
# What an engine keeps of its shortcuts

What a shortcut says when it is first used as an item of its own is written down once, and
never again: later calls, whether they succeed or fail, and whatever the plugins have come to
in the meantime, find it there. And what it says has the same names in every later store.

- `Engine.Lives`: what can become of an engine, its plugins being free to change between calls.
- `Engine.Knows`: what an engine has written down of a shortcut.
- `Engine.exists_knows_of_extractAll`: items that were read leave their shortcuts known.
- `Engine.Lives.knows`: what is known stays known.
- `Engine.addSlots_eq_of_extends`: the same slots are answered alike for ever.
- `Engine.Lives.shortcut_keeps_meaning`: a shortcut means the same for the life of an engine.
-/

namespace AtomicCss.Engine

variable {σ : Type}

/-- What can become of an engine: calls come to an answer or to an error, and before and after
any of them the plugins may become other ones, in another state. -/
inductive Lives : Engine σ → Engine σ → Prop
  | still (e : Engine σ) : Lives e e
  | called {e e₁ e₂ : Engine σ} {budget : Nat} {c : Call σ} {answer : Except Error Answer} :
      c.perform budget e = some (answer, e₁) → Lives e₁ e₂ → Lives e e₂
  | changed {e e₂ : Engine σ} (pipeline : Pipeline σ) :
      Lives { e with pipeline := pipeline } e₂ → Lives e e₂

variable {e e' e₁ e₂ : Engine σ} {name : String} {parts : List Extracted} {b : Nat}

/-- Whatever calls and changes of the plugins keep, is kept. -/
theorem Lives.invariant {I : Engine σ → Prop}
    (call : ∀ {budget c answer} {e e₁ : Engine σ},
      I e → Call.perform budget c e = some (answer, e₁) → I e₁)
    (change : ∀ {e : Engine σ} (pipeline : Pipeline σ), I e → I { e with pipeline := pipeline })
    (h : Lives e e') (he : I e) : I e' := by
  induction h with
  | still => exact he
  | called hcall _ ih => exact ih (call he hcall)
  | changed pipeline _ ih => exact ih (change pipeline he)

theorem Lives.canonical (h : Lives e e') (he : e.StoreCanonical) :
    e'.StoreCanonical ∧ e.Extends e' := by
  refine Lives.invariant (I := fun e' => e'.StoreCanonical ∧ e.Extends e') ?_ ?_ h
    ⟨he, Extends.refl e⟩
  · intro budget c answer e₁ e₂ hinv hcall
    obtain ⟨hcanonical, hext⟩ := hinv
    obtain ⟨hcanonical', hext'⟩ := perform_canonical hcanonical hcall
    exact ⟨hcanonical', hext.trans hext'⟩
  · intro e₁ pipeline hinv
    obtain ⟨hcanonical, hext⟩ := hinv
    exact ⟨hcanonical, hext.config, hext.rules⟩

/-! ## Known shortcuts -/

/-- The engine has written down what the shortcut says. -/
def Knows (name : String) (parts : List Extracted) (e : Engine σ) : Prop :=
  Table.get? e.shortcuts name = some parts

theorem ensures_knows_onPipeline {α : Type} (w : Walk (Pipeline σ) α) :
    Walk.Ensures (Knows name parts) (onPipeline w) fun _ => True :=
  Walk.ensures_within (fun _ _ => trivial) (fun _ _ h _ => h) (Walk.ensures_trivial w)

/-- Reading an item writes down only what is not there yet. -/
theorem ensures_knows_extractItem :
    ∀ item : StyleItem,
      Walk.Ensures (Knows (σ := σ) name parts) (extractItem b item) fun _ => True
  | .definition d => Walk.ensures_bind Walk.ensures_get fun e _ => ensures_knows_onPipeline _
  | .shortcut other => by
    refine Walk.ensures_bind Walk.ensures_get fun e he => ?_
    cases hother : Table.get? e.shortcuts other with
    | some said => exact Walk.ensures_pure (P := fun _ => True) trivial
    | none =>
      have hne : name ≠ other := by
        rintro rfl
        cases he.symm.trans hother
      have hkeep (said : List Extracted) (m : Engine σ) (hm : m.Knows name parts) :
          Knows name parts { m with shortcuts := Table.insert m.shortcuts other said } :=
        (Table.get?_insert_of_ne m.shortcuts said hne).trans hm
      exact Walk.ensures_bind (ensures_knows_onPipeline _) fun said _ =>
        Walk.ensures_bind (Walk.ensures_modify (hkeep said)) fun _ _ =>
          Walk.ensures_pure (P := fun _ => True) trivial

theorem ensures_knows_extractAll (items : List StyleItem) :
    Walk.Ensures (Knows (σ := σ) name parts) (extractAll b items) fun _ => True :=
  Walk.ensures_collect (R := fun _ _ => True) ensures_knows_extractItem trivial
    (fun _ _ => trivial) items

/-- A shortcut that was read is written down. -/
theorem knows_of_extractItem (h : extractItem b (.shortcut name) e = some (.ok parts, e')) :
    e'.Knows name parts := by
  obtain ⟨m, m', hm, h⟩ := (Walk.bind_eq_some.1 h).resolve_left (by simp)
  obtain ⟨rfl, rfl⟩ : e = m ∧ e = m' := by simpa using hm
  cases hname : Table.get? e.shortcuts name with
  | some said =>
    rw [hname] at h
    obtain ⟨rfl, rfl⟩ : said = parts ∧ e = e' := by simpa using h
    exact hname
  | none =>
    rw [hname] at h
    obtain ⟨said, m, -, h⟩ := (Walk.bind_eq_some.1 h).resolve_left (by simp)
    obtain ⟨rfl, rfl⟩ : said = parts ∧
        { m with shortcuts := Table.insert m.shortcuts name said } = e' := by
      simpa [Walk.bind_run] using h
    exact Table.get?_insert_self m.shortcuts name said

/-- Items that were read leave each of their shortcuts written down. -/
theorem exists_knows_of_extractAll {items : List StyleItem} (hname : .shortcut name ∈ items)
    (h : extractAll b items e = some (.ok parts, e')) : ∃ said, e'.Knows name said := by
  induction items generalizing e parts with
  | nil => cases hname
  | cons item items ih =>
    rcases Walk.collect_cons_eq_some.1 h with
      ⟨_, -, herr⟩ | ⟨_, _, _, -, -, herr⟩ | ⟨here, m, rest, hitem, hrest, -⟩
    · cases herr
    · cases herr
    · rcases List.mem_cons.1 hname with rfl | hname
      · -- the items behind the shortcut leave alone what was written down
        obtain ⟨hknows, -⟩ := ensures_knows_extractAll items _ _ _ (knows_of_extractItem hitem)
          hrest
        exact ⟨here, hknows⟩
      · exact ih hname hrest

/-! ## Calls -/

theorem addDeclaration_shortcuts (e : Engine σ) (d : Declaration) :
    (e.addDeclaration d).2.shortcuts = e.shortcuts := by
  rw [addDeclaration_eq]
  dsimp only
  split <;> rfl

theorem addSlots_shortcuts (e : Engine σ) (o : UseOutcome) (slots : List Slot) :
    (e.addSlots o slots).2.shortcuts = e.shortcuts := by
  induction slots generalizing e o with
  | nil => rfl
  | cons slot slots ih =>
    cases slot with
    | unknown name => exact ih e _
    | declaration d => exact (ih _ _).trans (addDeclaration_shortcuts e d)

/-- Apart from reading its items, no call changes what is known. -/
theorem perform_shortcuts {c : Call σ} {answer : Except Error Answer} {items : List StyleItem}
    (hitems : c.items? = some items) (h : c.perform b e = some (answer, e')) :
    ∃ read m, extractAll b items e = some (read, m) ∧ FailAlike answer read ∧
      e'.shortcuts = m.shortcuts := by
  obtain ⟨read, m, hread, halike, rfl | ⟨slots, rfl⟩⟩ := perform_reads hitems h
  · exact ⟨read, _, hread, halike, rfl⟩
  · exact ⟨read, m, hread, halike, addSlots_shortcuts m {} slots⟩

theorem perform_knows {c : Call σ} {answer : Except Error Answer} (he : e.Knows name parts)
    (h : c.perform b e = some (answer, e')) : e'.Knows name parts := by
  cases hitems : c.items? with
  | some items =>
    obtain ⟨read, m, hread, -, hshortcuts⟩ := perform_shortcuts hitems h
    obtain ⟨hm, -⟩ := ensures_knows_extractAll items _ _ _ he hread
    rwa [Knows, hshortcuts]
  | none =>
    have hcall := perform_eq_some.1 h
    cases c with
    | use items => cases hitems
    | preview items => cases hitems
    | render => exact hcall.2 ▸ he
    | listen listener => exact hcall.2 ▸ he

/-- A call that succeeds leaves the shortcuts among its items known. -/
theorem exists_knows_of_perform {c : Call σ} {answer : Answer} {items : List StyleItem}
    (hitems : c.items? = some items) (hname : .shortcut name ∈ items)
    (h : c.perform b e = some (.ok answer, e')) : ∃ said, e'.Knows name said := by
  obtain ⟨read, m, hread, halike, hshortcuts⟩ := perform_shortcuts hitems h
  obtain ⟨parts, rfl⟩ := halike.exists_ok_iff.1 ⟨answer, rfl⟩
  obtain ⟨said, hsaid⟩ := exists_knows_of_extractAll hname hread
  exact ⟨said, by rwa [Knows, hshortcuts]⟩

/-- What is known stays known. -/
theorem Lives.knows (h : Lives e e') (he : e.Knows name parts) : e'.Knows name parts :=
  h.invariant (fun hknows hcall => perform_knows hknows hcall) (fun _ hknows => hknows) he

/-! ## Uses of a known shortcut -/

/-- No plugin is asked what a known shortcut says. -/
theorem useStyles_of_knows (he : e.Knows name parts) (b : Nat) :
    useStyles b [.shortcut name] e =
      some (.ok (e.addSlots {} (merge parts)).1, (e.addSlots {} (merge parts)).2) := by
  have hitem : extractItem b (.shortcut name) e = some (.ok parts, e) := by
    have hget : Table.get? e.shortcuts name = some parts := he
    rw [extractItem, Walk.bind_run_ok (Walk.get_run e), hget]
    rfl
  have hread : extractAll b [.shortcut name] e = some (.ok parts, e) := by
    rwa [extractAll, Walk.collect_singleton]
  exact useStyles_eq_some.2 (.inr ⟨parts, e, hread, rfl, rfl⟩)

/-- Slots that were entered once are answered in the same way in every later store. -/
theorem addSlots_eq_of_extends {slots : List Slot} (he : e.StoreCanonical)
    (he' : e'.StoreCanonical) (hext : (e.addSlots {} slots).2.Extends e') :
    (e'.addSlots {} slots).1 = (e.addSlots {} slots).1 := by
  obtain ⟨hm, -, hnames⟩ := @addSlots_canonical σ slots e {} he
  obtain ⟨hm', hext', hnames'⟩ := @addSlots_canonical σ slots e' {} he'
  have hlater := hext.trans hext'
  rw [List.map_nil, List.nil_append] at hnames hnames'
  have hkept := Store.names_eq_mono hm (hlater.config ▸ hm') hlater.rules hnames
  have hsame : (e'.addSlots {} slots).1.names = (e.addSlots {} slots).1.names := by
    rw [← List.map_inj_right fun _ _ => Option.some.inj, hnames', hkept]
  have hunknown : (e'.addSlots {} slots).1.unknown = (e.addSlots {} slots).1.unknown := by
    rw [addSlots_unknown, addSlots_unknown]
  exact congrArg₂ UseOutcome.mk hsame hunknown

/-- From the first use of a known shortcut on, every use is answered in the same way. -/
theorem Lives.useStyles_eq {o : UseOutcome} (he : e.StoreCanonical)
    (huse : useStyles b [.shortcut name] e = some (.ok o, e₁)) (h : Lives e₁ e₂) :
    ∃ e', ∀ b, useStyles b [.shortcut name] e₂ = some (.ok o, e') := by
  rcases useStyles_eq_some.1 huse with ⟨_, -, herr⟩ | ⟨parts, m, hread, ho, rfl⟩
  · cases herr
  obtain rfl := Except.ok.inj ho
  obtain ⟨hm, -⟩ := storeCanonical_of_fixed (preserves_extractAll _ _ _ _ _ hread) he
  obtain ⟨hm₁, -⟩ : (m.addSlots {} (merge parts)).2.StoreCanonical ∧ _ := addSlots_canonical hm
  rw [extractAll, Walk.collect_singleton] at hread
  have hknows : (m.addSlots {} (merge parts)).2.Knows name parts :=
    (congrArg (Table.get? · name) (addSlots_shortcuts m {} (merge parts))).trans
      (knows_of_extractItem hread)
  obtain ⟨he₂, hext⟩ := h.canonical hm₁
  refine ⟨(e₂.addSlots {} (merge parts)).2, fun b => ?_⟩
  rw [useStyles_of_knows (h.knows hknows) b, addSlots_eq_of_extends hm he₂ hext]

/-- A shortcut means the same for the life of an engine. Let `e` be what a new engine with any
plugins has become, and let a call with the shortcut among its items succeed. Then every later
use of the shortcut alone succeeds with any budget, whatever was called in between and whatever
has become of the plugins, and all uses of it that follow one another are answered alike; if the
call was such a use itself, they are answered as it was. -/
theorem Lives.shortcut_keeps_meaning {config : EngineConfig σ} {shared : σ} {e₀ : Engine σ}
    {warnings : List Warning} (hcreate : create config shared = some (.ok (e₀, warnings)))
    (hlife : Lives e₀ e) {c : Call σ} {answer : Answer} {items : List StyleItem}
    (hitems : c.items? = some items) (hname : .shortcut name ∈ items)
    (hcall : c.perform b e = some (.ok answer, e₁)) :
    (∀ e₂, Lives e₁ e₂ → ∃ o e₃, (∀ b, useStyles b [.shortcut name] e₂ = some (.ok o, e₃)) ∧
      ∀ e₄, Lives e₃ e₄ → ∃ e₅, ∀ b, useStyles b [.shortcut name] e₄ = some (.ok o, e₅)) ∧
    ∀ o, c = .use [.shortcut name] → answer = .outcome o →
      ∀ e₂, Lives e₁ e₂ → ∃ e₃, ∀ b, useStyles b [.shortcut name] e₂ = some (.ok o, e₃) := by
  obtain ⟨he, -⟩ := hlife.canonical (storeCanonical_of_create hcreate)
  obtain ⟨he₁, -⟩ := perform_canonical he hcall
  constructor
  · intro e₂ hlater
    obtain ⟨said, hsaid⟩ := exists_knows_of_perform hitems hname hcall
    have huse := useStyles_of_knows (hlater.knows hsaid)
    exact ⟨_, _, huse, fun e₄ hlater' =>
      hlater'.useStyles_eq (hlater.canonical he₁).1 (huse 0)⟩
  · rintro o rfl rfl e₂ hlater
    obtain ⟨r, huse, hr⟩ := perform_eq_some.1 hcall
    cases r with
    | error err => cases hr
    | ok o' =>
      obtain rfl := Answer.outcome.inj (Except.ok.inj hr)
      exact hlater.useStyles_eq he huse

/-- A plugin that knows every shortcut when it is asked for the first time, and none later. -/
def fickle : Plugin Nat :=
  .custom
    { name := "fickle"
      items := fun _ asked =>
        if asked = 0 then
          (.ok (some [.definition [("color", .property (.scalar (.text "red")))],
            .shortcut "mystery"]), 1)
        else (.error (.plugin "fickle" "spent"), asked + 1) }

/-- An engine with this plugin, after it was asked some number of times. -/
def consulting (asked : Nat) (said : Table String (List Extracted)) (ds : List Declaration) :
    Engine Nat where
  config := {}
  pipeline := ⟨[fickle], asked⟩
  store := Store.ofDeclarations "" ds
  shortcuts := said

/-- A card is previewed while the plugin knows it. Another preview fails, a margin takes the
first name, and the plugin is taken away; then the card is used. -/
theorem Lives.shortcut_keeps_meaning_fickle :
    let margin : Declaration := ⟨[".$$"], "margin", ["0"]⟩
    let marginItem : StyleItem := .definition [("margin", .property (.scalar (.text "0")))]
    let said : Table String (List Extracted) :=
      [("card", [.assignment ⟨[".$$"], "color", some ["red"]⟩, .unknown "mystery"])]
    create { plugins := [.plugin fickle] } 0 = some (.ok (consulting 0 [] [], [])) ∧
      Call.perform 2 (.preview [.shortcut "card"]) (consulting 0 [] []) =
        some (.ok (.css ".$$\x7bcolor:red\x7d"), consulting 1 said []) ∧
      Call.perform 1 (.preview [.shortcut "other"]) (consulting 1 said []) =
        some (.error (.plugin "fickle" "spent"), consulting 2 said []) ∧
      Call.perform 1 (.use [marginItem]) (consulting 2 said []) =
        some (.ok (.outcome ⟨["a"], []⟩), consulting 2 said [margin]) ∧
      ∃ e', ∀ b, useStyles b [.shortcut "card"]
          { consulting 2 said [margin] with pipeline := ⟨[], 7⟩ } =
        some (.ok ⟨["b", "mystery"], ["mystery"]⟩, e') := by
  intro margin marginItem said
  have hcreate : create { plugins := [.plugin fickle] } 0 =
      some (.ok (consulting 0 [] [], [])) := by rfl
  have hshown : Call.perform 2 (.preview [.shortcut "card"]) (consulting 0 [] []) =
      some (.ok (.css ".$$\x7bcolor:red\x7d"), consulting 1 said []) := by rfl
  have hfailed : Call.perform 1 (.preview [.shortcut "other"]) (consulting 1 said []) =
      some (.error (.plugin "fickle" "spent"), consulting 2 said []) := by rfl
  have hused : Call.perform 1 (.use [marginItem]) (consulting 2 said []) =
      some (.ok (.outcome ⟨["a"], []⟩), consulting 2 said [margin]) := by
    -- both sides are closed once the local definitions are written out
    dsimp +zetaDelta only
    rfl
  have hlater : Lives (consulting 1 said [])
      { consulting 2 said [margin] with pipeline := ⟨[], 7⟩ } :=
    .called hfailed (.called hused (.changed ⟨[], 7⟩ (.still _)))
  have hanswer : (useStyles 0 [.shortcut "card"]
      { consulting 2 said [margin] with pipeline := ⟨[], 7⟩ }).map Prod.fst =
      some (.ok ⟨["b", "mystery"], ["mystery"]⟩) := by
    dsimp +zetaDelta only
    rfl
  obtain ⟨hkept, -⟩ := Lives.shortcut_keeps_meaning hcreate (.still _) rfl
    (List.mem_singleton_self _) hshown
  obtain ⟨o, e', huse, -⟩ := hkept _ hlater
  rw [huse 0] at hanswer
  obtain rfl := Except.ok.inj (Option.some.inj hanswer)
  exact ⟨hcreate, hshown, hfailed, hused, e', huse⟩

end AtomicCss.Engine
