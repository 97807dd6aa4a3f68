import AtomicCss.Proofs.Engine.Run
import AtomicCss.Proofs.Store.Canonical

/-!
# Names of rules over the life of an engine

The store of an engine is canonical after every run, whatever its plugins do and
whether its calls succeed: only interning changes it, always with the prefix of
the engine.

- `Slot.nameIn?`: the name that an answer has in the place of a slot.
- `Slot.unknown?`, `Engine.addSlots_unknown`: the unknown names of an answer are those among
  its slots.
- `Engine.addSlots_canonical`: entering slots answers with the names that the
  declarations have in the new store, and appends rules.
- `Engine.perform_canonical`: the same of a call.
- `Engine.Run.content_addressed`: rules are numbered in order, names and contents
  determine each other, and neither ever changes.
-/

namespace AtomicCss

variable {σ : Type}

/-- The name that an answer has in the place of a slot. -/
def Slot.nameIn? (s : Store) : Slot → Option String
  | .unknown name => some name
  | .declaration d => s.nameOf? d

/-- The unknown name in a slot. -/
def Slot.unknown? : Slot → Option String
  | .unknown name => some name
  | .declaration _ => none

theorem Slot.mem_filterMap_unknown_iff {slots : List Slot} {name : String} :
    name ∈ slots.filterMap Slot.unknown? ↔ .unknown name ∈ slots := by
  rw [List.mem_filterMap]
  constructor
  · rintro ⟨slot, hslot, heq⟩
    cases slot with
    | unknown other => exact Option.some.inj heq ▸ hslot
    | declaration d => cases heq
  · exact fun hslot => ⟨_, hslot, rfl⟩

namespace Store

variable {namePrefix : String} {s s' : Store}

/-- A name of a declaration stays its name while rules are appended. -/
theorem nameOf?_mono (hs : s.Canonical namePrefix) (hs' : s'.Canonical namePrefix)
    (hle : s.rules <+: s'.rules) {d : Declaration} {name : String}
    (h : s.nameOf? d = some name) : s'.nameOf? d = some name := by
  rw [nameOf?_eq_some_iff hs, get?_eq_some_iff hs] at h
  rw [nameOf?_eq_some_iff hs', get?_eq_some_iff hs']
  exact ⟨hle.subset h.1, h.2⟩

/-- Slots that have names go on to have them while rules are appended. -/
theorem names_eq_mono {slots : List Slot} {names : List String} (hs : s.Canonical namePrefix)
    (hs' : s'.Canonical namePrefix) (hle : s.rules <+: s'.rules)
    (h : names.map some = slots.map (Slot.nameIn? s)) :
    names.map some = slots.map (Slot.nameIn? s') := by
  refine h.trans (List.map_congr_left fun slot hslot => ?_)
  cases slot with
  | unknown name => rfl
  | declaration d =>
    obtain ⟨name, -, hname⟩ : ∃ name ∈ names, some name = s.nameOf? d := by
      have hmem := List.mem_map_of_mem (f := Slot.nameIn? s) hslot
      rw [← h] at hmem
      exact List.mem_map.1 hmem
    exact hname.symm.trans (nameOf?_mono hs hs' hle hname.symm).symm

end Store

namespace Engine

/-- The store of the engine is canonical for the prefix of the engine. -/
def StoreCanonical (e : Engine σ) : Prop := e.store.Canonical e.config.namePrefix

/-- A later engine with the same configuration, in whose store rules were appended. -/
structure Extends (e e' : Engine σ) : Prop where
  config : e'.config = e.config
  rules : e.store.rules <+: e'.store.rules

theorem Extends.refl (e : Engine σ) : e.Extends e := ⟨rfl, List.prefix_refl _⟩

theorem Extends.trans {e₁ e₂ e₃ : Engine σ} (h₁ : e₁.Extends e₂) (h₂ : e₂.Extends e₃) :
    e₁.Extends e₃ :=
  ⟨h₂.config.trans h₁.config, h₁.rules.trans h₂.rules⟩

/-! ## Entering declarations -/

theorem addDeclaration_fst (e : Engine σ) (d : Declaration) :
    (e.addDeclaration d).1 = (e.store.intern d e.config.namePrefix).1.name := by
  rw [addDeclaration_eq]

theorem addDeclaration_store (e : Engine σ) (d : Declaration) :
    (e.addDeclaration d).2.store = (e.store.intern d e.config.namePrefix).2 := by
  rw [addDeclaration_eq]
  dsimp only
  split <;> rfl

theorem addDeclaration_config (e : Engine σ) (d : Declaration) :
    (e.addDeclaration d).2.config = e.config := by
  rw [addDeclaration_eq]
  dsimp only
  split <;> rfl

/-- Entering a declaration keeps the store canonical and the earlier rules, and gives the
declaration the name it has then. -/
theorem addDeclaration_canonical {e : Engine σ} (he : e.StoreCanonical) (d : Declaration) :
    (e.addDeclaration d).2.StoreCanonical ∧ e.Extends (e.addDeclaration d).2 ∧
      (e.addDeclaration d).2.store.nameOf? d = some (e.addDeclaration d).1 := by
  obtain ⟨hcanonical, hname, hrules⟩ := Store.intern_canonical he d
  refine ⟨?_, ⟨addDeclaration_config e d, ?_⟩, ?_⟩
  · rw [StoreCanonical, addDeclaration_store, addDeclaration_config]
    exact hcanonical
  · rw [addDeclaration_store]
    exact hrules
  · rw [addDeclaration_store, addDeclaration_fst]
    exact hname

/-- Entering slots answers each of them with its name in the store that is reached. -/
theorem addSlots_canonical {slots : List Slot} :
    ∀ {e : Engine σ} {o : UseOutcome}, e.StoreCanonical →
      (e.addSlots o slots).2.StoreCanonical ∧ e.Extends (e.addSlots o slots).2 ∧
        (e.addSlots o slots).1.names.map some =
          o.names.map some ++ slots.map (Slot.nameIn? (e.addSlots o slots).2.store) := by
  induction slots with
  | nil => exact fun he => ⟨he, Extends.refl _, by simp [addSlots]⟩
  | cons slot slots ih =>
    intro e o he
    cases slot with
    | unknown name =>
      obtain ⟨hcanonical, hext, hnames⟩ :=
        ih (o := ⟨o.names ++ [name], pushNew o.unknown name⟩) he
      exact ⟨hcanonical, hext, by simpa [addSlots, Slot.nameIn?] using hnames⟩
    | declaration d =>
      obtain ⟨hd, hextd, hname⟩ := addDeclaration_canonical he d
      obtain ⟨hcanonical, hext, hnames⟩ :=
        ih (o := ⟨o.names ++ [(e.addDeclaration d).1], o.unknown⟩) hd
      -- the name of `d` in the store behind it is still its name when the rest is entered
      have hlast := Store.nameOf?_mono hd (hext.config ▸ hcanonical) hext.rules hname
      refine ⟨hcanonical, hextd.trans hext, ?_⟩
      simpa [addSlots, Slot.nameIn?, hlast] using hnames

/-- An answer lists the unknown names among the slots once, in the order of the slots. -/
theorem addSlots_unknown (e : Engine σ) (o : UseOutcome) (slots : List Slot) :
    (e.addSlots o slots).1.unknown =
      (slots.filterMap Slot.unknown?).foldl pushNew o.unknown := by
  induction slots generalizing e o with
  | nil => rfl
  | cons slot slots ih =>
    cases slot with
    | unknown name => exact ih e _
    | declaration d => exact ih _ _

/-! ## Calls and runs -/

theorem storeCanonical_of_fixed {e e' : Engine σ} (h : e'.fixed = e.fixed)
    (he : e.StoreCanonical) : e'.StoreCanonical ∧ e.Extends e' := by
  obtain ⟨hconfig, hstore, -⟩ : _ ∧ _ ∧ _ := by simpa [fixed] using h
  refine ⟨?_, hconfig, hstore ▸ List.prefix_rfl⟩
  rw [StoreCanonical, hconfig, hstore]
  exact he

/-- A use keeps the store canonical and the earlier rules. -/
theorem useStyles_canonical {budget : Nat} {items : List StyleItem} {e e' : Engine σ}
    {r : Except Error UseOutcome} (he : e.StoreCanonical)
    (h : useStyles budget items e = some (r, e')) : e'.StoreCanonical ∧ e.Extends e' := by
  rcases useStyles_eq_some.1 h with ⟨err, hread, -⟩ | ⟨parts, e₁, hread, -, rfl⟩
  · exact storeCanonical_of_fixed (preserves_extractAll _ _ _ _ _ hread) he
  · obtain ⟨he₁, hext₁⟩ :=
      storeCanonical_of_fixed (preserves_extractAll _ _ _ _ _ hread) he
    obtain ⟨he', hext', -⟩ := addSlots_canonical he₁
    exact ⟨he', hext₁.trans hext'⟩

/-- A call, whatever it comes to, keeps the store canonical and appends rules. -/
theorem perform_canonical {budget : Nat} {c : Call σ} {e e' : Engine σ}
    {answer : Except Error Answer} (he : e.StoreCanonical)
    (h : c.perform budget e = some (answer, e')) : e'.StoreCanonical ∧ e.Extends e' := by
  have hcall := perform_eq_some.1 h
  cases c with
  | use items =>
    obtain ⟨r, huse, -⟩ := hcall
    exact useStyles_canonical he huse
  | preview items =>
    obtain ⟨r, hpreview, -⟩ := hcall
    obtain ⟨read, hread, -⟩ := previewStyles_eq_some.1 hpreview
    exact storeCanonical_of_fixed (preserves_extractAll _ _ _ _ _ hread) he
  | render =>
    obtain ⟨-, rfl⟩ := hcall
    exact ⟨he, Extends.refl _⟩
  | listen listener =>
    obtain ⟨-, rfl⟩ := hcall
    exact ⟨he, rfl, List.prefix_refl _⟩

/-- So does every run. -/
theorem Run.canonical {e e' : Engine σ} {events : List (Event σ)} (h : Run e events e')
    (he : e.StoreCanonical) : e'.StoreCanonical ∧ e.Extends e' := by
  refine Run.invariant (I := fun e' => e'.StoreCanonical ∧ e.Extends e') ?_ h
    ⟨he, Extends.refl e⟩
  intro budget c answer e₁ e₂ hinv hcall
  obtain ⟨hcanonical, hext⟩ := hinv
  obtain ⟨hcanonical', hext'⟩ := perform_canonical hcanonical hcall
  exact ⟨hcanonical', hext.trans hext'⟩

/-- A new engine has seen no declaration. -/
theorem create_store {config : EngineConfig σ} {shared : σ} {e : Engine σ}
    {warnings : List Warning} (h : create config shared = some (.ok (e, warnings))) :
    e.store = {} := by
  obtain ⟨settled, pipeline, -, rfl⟩ := create_eq_some h
  rfl

/-- A new engine has an empty store, which is canonical. -/
theorem storeCanonical_of_create {config : EngineConfig σ} {shared : σ} {e : Engine σ}
    {warnings : List Warning} (h : create config shared = some (.ok (e, warnings))) :
    e.StoreCanonical := by
  rw [StoreCanonical, create_store h]
  exact Store.canonical_empty

/-- Content addressing. After any run of a new engine the rules are numbered in
the order of their creation, names and contents determine each other, a use
answers with the names of what it has entered, and in every later engine the
rules so far come first and their names still mean what they meant. -/
theorem Run.content_addressed {config : EngineConfig σ} {shared : σ} {e₀ e : Engine σ}
    {warnings : List Warning} {events : List (Event σ)}
    (hcreate : create config shared = some (.ok (e₀, warnings))) (hrun : Run e₀ events e) :
    (∀ i (hi : i < e.store.rules.length),
      e.store.rules[i].name = e₀.config.namePrefix ++ Numeral.ofNat i) ∧
    (∀ d name, e.store.nameOf? d = some name ↔ e.store.get? name = some ⟨name, d⟩) ∧
    (∀ c d name, e.store.nameOf? c = some name → e.store.nameOf? d = some name → c = d) ∧
    (∀ budget items o e', useStyles budget items e = some (.ok o, e') →
      ∃ parts e₁, extractAll budget items e = some (.ok parts, e₁) ∧
        o.names.map some = (merge parts).map (Slot.nameIn? e'.store)) ∧
    (∀ later e', Run e later e' → e.store.rules <+: e'.store.rules ∧
      ∀ d name, e.store.nameOf? d = some name →
        e'.store.nameOf? d = some name ∧ e'.store.get? name = some ⟨name, d⟩) := by
  have he₀ : e₀.StoreCanonical := by
    rw [StoreCanonical, create_store hcreate]
    exact Store.canonical_empty
  obtain ⟨he, hext⟩ := hrun.canonical he₀
  have hinverse (d : Declaration) (name : String) :
      e.store.nameOf? d = some name ↔ e.store.get? name = some ⟨name, d⟩ :=
    Store.nameOf?_eq_some_iff he
  refine ⟨?_, hinverse, ?_, ?_, ?_⟩
  · intro i hi
    rw [Store.name_rules_getElem he hi, hext.config]
  · intro c d name hc hd
    -- both declarations are the content of the rule with this name
    have hrules := ((hinverse c name).1 hc).symm.trans ((hinverse d name).1 hd)
    exact (AtomicRule.mk.inj (Option.some.inj hrules)).2
  · intro budget items o e' huse
    rcases useStyles_eq_some.1 huse with ⟨err, -, herr⟩ | ⟨parts, e₁, hread, ho, rfl⟩
    · cases herr
    · obtain rfl := Except.ok.inj ho
      obtain ⟨he₁, -⟩ := storeCanonical_of_fixed (preserves_extractAll _ _ _ _ _ hread) he
      obtain ⟨-, -, hnames⟩ := addSlots_canonical he₁
      exact ⟨parts, e₁, hread, hnames⟩
  · intro later e' hlater
    obtain ⟨he', hext'⟩ := hlater.canonical he
    refine ⟨hext'.rules, fun d name hname => ?_⟩
    have hname' := Store.nameOf?_mono he (hext'.config ▸ he') hext'.rules hname
    exact ⟨hname', (Store.nameOf?_eq_some_iff he').1 hname'⟩

/-- An engine without plugins. -/
def plain : Engine Unit := { config := { namePrefix := "x-" }, pipeline := ⟨[], ()⟩ }

/-- The engine without plugins once it has named a declaration. -/
def plainWith (d : Declaration) : Engine Unit :=
  { plain with store := Store.ofDeclarations "x-" [d] }

/-- The engine without plugins uses one red definition: the declaration is named
by the first numeral, and the name leads back to it. -/
theorem Run.content_addressed_red :
    let red : Declaration := ⟨[".$$"], "color", ["red"]⟩
    let call : Call Unit := .use [.definition [("color", .property (.scalar (.text "red")))]]
    create { draft := { namePrefix := some "x-" } } () = some (.ok (plain, [])) ∧
      Run plain [(plainWith red).event call (.ok (.outcome ⟨["x-a"], []⟩))] (plainWith red) ∧
      (plainWith red).store.nameOf? red = some "x-a" ∧
      (plainWith red).store.get? "x-a" = some ⟨"x-a", red⟩ := by
  intro red call
  have hcreate : create { draft := { namePrefix := some "x-" } } () =
      some (.ok (plain, [])) := by rfl
  have hcall : call.perform 1 plain =
      some (.ok (.outcome ⟨["x-a"], []⟩), plainWith red) := by rfl
  have hrun := Run.cons hcall (.nil _)
  have hname : (plainWith red).store.nameOf? red = some "x-a" :=
    (Store.nameOf?_ofDeclarations (by simp)).2 ⟨0, rfl, by rfl⟩
  exact ⟨hcreate, hrun, hname, ((Run.content_addressed hcreate hrun).2.1 red "x-a").1 hname⟩

end Engine

end AtomicCss
