import AtomicCss.Proofs.Engine.Naming
import AtomicCss.Proofs.Keyframes.Words
import AtomicCss.Proofs.Plugin.Preflights
import AtomicCss.Proofs.Store.Prefixes
import AtomicCss.Proofs.Store.Renaming
import Mathlib.Data.List.Basic

/-!
# Keyframes are written when an animation refers to them

The preflight of the keyframes looks at the rules of the store: it writes what an animation among
them names, and nothing else, whatever was previewed or overridden on the way.

- `Declaration.Animates`: an animation refers to a name.
- `Keyframes.blockOf`: the text of a set of keyframes, told by what it lists.
- `Keyframes.Writes`: a text writes exactly the keyframes that the rules of a store refer to.
- `Keyframes.writes_preflight`: the preflight does.
- `Keyframes.emitted_sublist`, `Keyframes.emitted_eq_iff`: stores that refer to more emit more, and
  those that refer to the same emit the same.
- `Engine.Run.keyframes_emitted`: the keyframes in the pages of an engine.
-/

namespace AtomicCss

open scoped List

variable {σ : Type}

/-- The declaration sets an animation, and the name is a word of one of its values. -/
def Declaration.Animates (d : Declaration) (name : String) : Prop :=
  (d.property = "animation" ∨ d.property = "animation-name") ∧
    ∃ value ∈ d.values, Keyframes.Names value name

/-- All texts of a value, repeated ones included. A removal has none. -/
def PropertyValue.texts : PropertyValue → List String
  | .scalar s => [s.render]
  | .fallback primary rest => (primary :: rest).map Scalar.render
  | .removal => []

theorem PropertyValue.normalize_eq_some {value : PropertyValue} {texts : List String}
    (h : value.normalize = some texts) : texts = value.texts.eraseDups ∧ texts ≠ [] := by
  cases value with
  | scalar s =>
    obtain rfl := Option.some.inj h
    exact ⟨rfl, by simp⟩
  | fallback primary rest =>
    obtain rfl := Option.some.inj h
    refine ⟨distinct_eq_eraseDups _, fun hnil => ?_⟩
    have hmem : primary.render ∈ distinct ((primary :: rest).map Scalar.render) :=
      mem_distinct.2 (by simp)
    exact List.not_mem_nil (hnil ▸ hmem)
  | removal => cases h

theorem PropertyValue.texts_of_normalize_eq_none {value : PropertyValue}
    (h : value.normalize = none) : value.texts = [] := by
  cases value <;> first | rfl | cases h

namespace Keyframes

variable {keyframes : Table String Frames} {s s' : Store} {name : String}

/-! ## The text of keyframes -/

/-- What a frame lists: each property that is not removed, in order, with each of its distinct
values in order. -/
def listed (properties : Table String PropertyValue) : List String :=
  properties.flatMap fun e =>
    e.2.texts.eraseDups.map fun text => propertyName e.1 ++ ":" ++ text

/-- The block of a set of keyframes: its frames in order, each with what it lists. -/
def blockOf (name : String) (frames : Frames) : String :=
  "@keyframes " ++ name ++ "\x7b"
    ++ String.join (frames.map fun (selector, properties) =>
        selector ++ "\x7b" ++ ";".intercalate (listed properties) ++ "\x7d")
    ++ "\x7d"

/-- Lists that are joined one by one and then with each other are joined at once, unless there are
empty ones among them. -/
theorem intercalate_map_intercalate {s : String} {groups : List (List String)}
    (h : ∀ group ∈ groups, group ≠ []) :
    s.intercalate (groups.map s.intercalate) = s.intercalate groups.flatten := by
  induction groups with
  | nil => rfl
  | cons group groups ih =>
    obtain ⟨hgroup, hgroups⟩ := List.forall_mem_cons.1 h
    cases groups with
    | nil => simp
    | cons group' groups =>
      have hne : (group' :: groups).flatten ≠ [] := by
        simp [(List.forall_mem_cons.1 hgroups).1]
      rw [List.map_cons, String.intercalate_cons_of_ne_nil (by simp), ih hgroups,
        List.flatten_cons (l := group), String.intercalate_append_of_ne_nil hgroup hne]

/-- The declarations of a property of a frame, unless it is removed. -/
def group? (e : String × PropertyValue) : Option (List String) :=
  e.2.normalize.map fun texts => texts.map fun text => propertyName e.1 ++ ":" ++ text

theorem ne_nil_of_group? {e : String × PropertyValue} {group : List String}
    (h : group? e = some group) : group ≠ [] := by
  obtain ⟨texts, htexts, rfl⟩ := Option.map_eq_some_iff.1 h
  simpa using (PropertyValue.normalize_eq_some htexts).2

theorem flatten_groups (properties : Table String PropertyValue) :
    (properties.filterMap group?).flatten = listed properties := by
  induction properties with
  | nil => rfl
  | cons e properties ih =>
    rw [listed, List.flatMap_cons, ← listed]
    cases h : e.2.normalize with
    | none =>
      have hgroup : group? e = none := congrArg (Option.map _) h
      rw [List.filterMap_cons_none hgroup, ih, PropertyValue.texts_of_normalize_eq_none h]
      rfl
    | some texts =>
      obtain ⟨rfl, -⟩ := PropertyValue.normalize_eq_some h
      have hgroup : group? e = some _ := congrArg (Option.map _) h
      rw [List.filterMap_cons_some hgroup, List.flatten_cons, ih]

theorem frameBody_eq (properties : Table String PropertyValue) :
    frameBody properties = ";".intercalate (listed properties) := by
  have hbody : frameBody properties =
      ";".intercalate ((properties.filterMap group?).map ";".intercalate) := by
    rw [List.map_filterMap, frameBody]
    simp only [group?, Option.map_map]
    rfl
  have hgroups : ∀ group ∈ properties.filterMap group?, group ≠ [] := fun group hgroup =>
    (List.mem_filterMap.1 hgroup).elim fun _ h => ne_nil_of_group? h.2
  rw [hbody, intercalate_map_intercalate hgroups, flatten_groups]

theorem render_eq_blockOf (name : String) (frames : Frames) :
    render name frames = blockOf name frames := by
  simp only [render, blockOf, frameBody_eq]

/-! ## The keyframes that rules refer to -/

theorem mem_referenced_iff : name ∈ referenced s.rules ↔ ∃ d ∈ s.declarations, d.Animates name := by
  simp only [referenced, List.mem_flatMap, List.mem_filter, mem_words_iff, isAnimation,
    Bool.or_eq_true, decide_eq_true_eq, Declaration.Animates, Store.declarations, List.mem_map,
    exists_exists_and_eq_and]
  constructor
  · rintro ⟨value, ⟨r, ⟨hr, hanimation⟩, hvalue⟩, hname⟩
    exact ⟨r, hr, hanimation, value, hvalue, hname⟩
  · rintro ⟨r, hr, hanimation, value, hvalue, hname⟩
    exact ⟨value, ⟨r, ⟨hr, hanimation⟩, hvalue⟩, hname⟩

/-- The configured keyframes that the rules of a store refer to. -/
def emitted (keyframes : Table String Frames) (s : Store) : Table String Frames :=
  keyframes.filter fun k => k.1 ∈ referenced s.rules

theorem mem_emitted_iff {k : String × Frames} :
    k ∈ emitted keyframes s ↔ k ∈ keyframes ∧ ∃ d ∈ s.declarations, d.Animates k.1 := by
  simp [emitted, mem_referenced_iff]

/-- A store that refers to more emits more. -/
theorem emitted_sublist (h : ∀ k ∈ keyframes,
    (∃ d ∈ s.declarations, d.Animates k.1) → ∃ d ∈ s'.declarations, d.Animates k.1) :
    emitted keyframes s <+ emitted keyframes s' := by
  have hfilter : emitted keyframes s =
      (emitted keyframes s').filter fun k => k.1 ∈ referenced s.rules := by
    rw [emitted, emitted, List.filter_filter]
    refine List.filter_congr fun k hk => ?_
    by_cases hs : k.1 ∈ referenced s.rules
    · simp [hs, mem_referenced_iff.2 (h k hk (mem_referenced_iff.1 hs))]
    · simp [hs]
  rw [hfilter]
  exact List.filter_sublist

/-- Stores that refer to the same keyframes emit the same. -/
theorem emitted_eq_iff : emitted keyframes s' = emitted keyframes s ↔ ∀ k ∈ keyframes,
    ((∃ d ∈ s'.declarations, d.Animates k.1) ↔ ∃ d ∈ s.declarations, d.Animates k.1) := by
  constructor
  · intro h k hk
    rw [← and_iff_right (b := ∃ d ∈ s'.declarations, d.Animates k.1) hk, ← mem_emitted_iff, h,
      mem_emitted_iff, and_iff_right hk]
  · intro h
    exact (emitted_sublist fun k hk => (h k hk).1).antisymm
      (emitted_sublist fun k hk => (h k hk).2)

theorem preflight_eq (view : Snapshot) : preflight keyframes view =
    String.join ((emitted keyframes view.store).map fun k => blockOf k.1 k.2) := by
  simp only [preflight, emitted, render_eq_blockOf]

/-- The text writes keyframes: those that the rules of the store refer to, each of them once, in
the order in which they are configured. -/
structure Writes (keyframes : Table String Frames) (s : Store) (shown : Table String Frames)
    (text : String) : Prop where
  order : shown <+ keyframes
  once : (Table.keys shown).Nodup
  exactly : ∀ k ∈ keyframes, k ∈ shown ↔ ∃ d ∈ s.declarations, d.Animates k.1
  text_eq : text = String.join (shown.map fun k => blockOf k.1 k.2)

/-- The preflight writes what the rules of the store refer to. -/
theorem writes_preflight (hkeys : (Table.keys keyframes).Nodup) (view : Snapshot) :
    Writes keyframes view.store (emitted keyframes view.store)
      (String.join ((installed keyframes).map fun p => p.text view)) where
  order := List.filter_sublist
  once := hkeys.sublist (List.filter_sublist.map Prod.fst)
  exactly := fun k hk => by rw [mem_emitted_iff, and_iff_right hk]
  text_eq := by
    rw [installed]
    split
    · next h => subst h; rfl
    · simpa [Preflight.text] using preflight_eq view

/-! ## The configuration -/

/-- A map that is read repeats no key. -/
theorem nodup_keys_of_decodeTable {α : Type} {f : Json → Except Misfit α} {j : Json}
    {t : Table String α} (h : decodeTable f j = .ok t) : (Table.keys t).Nodup := by
  unfold decodeTable at h
  cases hmap : decodeMap j with
  | error m => rw [hmap] at h; cases h
  | ok fields =>
    rw [hmap] at h
    simp only [bind, Except.bind, pure, Except.pure] at h
    split at h
    · cases h
    · obtain rfl := Except.ok.inj h
      rw [Table.keys_ofEntries]
      exact nodup_distinct _

/-- A configuration with an entry of the right form gets the preflight of its keyframes. -/
theorem configSettled_of_decode {c : Settling} {shared : σ} {j : Json}
    (hentry : Table.get? c.1.extra "keyframes" = some j) (hdecode : decode j = .ok keyframes) :
    Plugin.keyframes.configSettled c shared =
      some (.ok (some (c.1.addPreflights (installed keyframes), c.2)), .keyframes, shared) := by
  have hread : configured c.1 = .ok keyframes := by
    rw [configured, Config.entry?, hentry]
    simp only [hdecode]
    rfl
  rw [Plugin.configSettled_keyframes_eq, hread]
  rfl

/-- Two sets of keyframes, the first of them with a property that is removed. -/
def fadeAndSpin : Table String Frames :=
  [("fade", [("from", [("opacity", .scalar (.text "0")), ("color", .removal)])]),
    ("spin", [("to", [("backgroundColor",
      .fallback (.text "red") [.text "red", .text "blue"])])])]

/-- The entry for these keyframes. -/
def fadeAndSpinEntry : Json :=
  .object [("fade", .object [("from", .object [("opacity", .string "0"), ("color", .null)])]),
    ("spin", .object [("to", .object [("backgroundColor",
      .array [.string "red", .array [.string "red", .string "blue"]])])])]

end Keyframes

namespace Engine

open Keyframes

/-- An engine writes the keyframes that are in use. Let the entry `keyframes` have the right form.
The plugin adds one preflight for it to any configuration, or none if there are no keyframes. In
every state of an engine with whatever plugins this preflight writes, in the order of the entry
and once each, exactly the keyframes whose name is a word of a value of an animation in the store,
each with all that its frames list; and later on in a run it writes what it wrote before, and
perhaps more. Where the plugin is among plugins that only add to the configuration, this is what
the page of the engine shows, between other preflights and in front of the rules. -/
theorem Run.keyframes_emitted {config : EngineConfig σ} {shared : σ} {e₀ e e' : Engine σ}
    {warnings : List Warning} {events later : List (Event σ)} {j : Json}
    {keyframes : Table String Frames}
    (hcreate : create config shared = some (.ok (e₀, warnings))) (hrun : Run e₀ events e)
    (hlater : Run e later e') (hdecode : decode j = .ok keyframes) :
    (∀ (c : Settling) (s : σ), Table.get? c.1.extra "keyframes" = some j →
      Plugin.keyframes.configSettled c s =
        some (.ok (some (c.1.addPreflights (installed keyframes), c.2)), .keyframes, s)) ∧
    (∃ shown shown',
      Writes keyframes e.store shown
        (String.join ((installed keyframes).map fun p => p.text e.snapshot)) ∧
      Writes keyframes e'.store shown'
        (String.join ((installed keyframes).map fun p => p.text e'.snapshot)) ∧
      shown <+ shown') ∧
    ((∀ p ∈ Pipeline.arrange config.plugins, p.Additive) →
      .keyframes ∈ Pipeline.arrange config.plugins →
      Table.get? config.draft.extra "keyframes" = some j →
      ∃ front back : List Preflight,
        e.renderStyles = String.join (front.map fun p => p.text e.snapshot)
          ++ String.join ((installed keyframes).map fun p => p.text e.snapshot)
          ++ String.join (back.map fun p => p.text e.snapshot)
          ++ Stylesheet.render e.store.rules) := by
  have hkeys : (Table.keys keyframes).Nodup := nodup_keys_of_decodeTable hdecode
  obtain ⟨he, hext⟩ := hrun.canonical (storeCanonical_of_create hcreate)
  obtain ⟨-, hext'⟩ := hlater.canonical he
  refine ⟨fun c s hentry => configSettled_of_decode hentry hdecode,
    ⟨_, _, writes_preflight hkeys e.snapshot, writes_preflight hkeys e'.snapshot, ?_⟩, ?_⟩
  · refine emitted_sublist fun k _ hk => ?_
    obtain ⟨d, hd, hanimates⟩ := hk
    exact ⟨d, (hext'.rules.map AtomicRule.declaration).subset hd, hanimates⟩
  · intro hplugins hmem hentry
    obtain ⟨front, back, hpreflights⟩ : ∃ front back,
        e₀.config.preflights = front ++ installed keyframes ++ back := by
      refine exists_added_of_create hcreate hplugins hmem fun hextra hhook => ?_
      rw [configSettled_of_decode (hextra ▸ hentry) hdecode] at hhook
      obtain ⟨rfl, -, -⟩ : some _ = _ ∧ _ := by simpa using hhook
      rfl
    refine ⟨front, back, ?_⟩
    rw [renderStyles, hext.config, hpreflights, List.map_append, List.map_append,
      String.join_append, String.join_append]

/-- An engine with these keyframes that has named declarations. -/
def animating (ds : List Declaration) : Engine Unit where
  config := { preflights := installed fadeAndSpin, extra := [("keyframes", fadeAndSpinEntry)] }
  pipeline := ⟨[.keyframes, .variables []], ()⟩
  store := Store.ofDeclarations "" ds

/-- A fade is previewed and a spin is used, and only the block of the spin is written. Then the
fade is used, as a fallback: its block comes in front of the other one, and on the page both are in
front of the rules. -/
theorem Run.keyframes_emitted_fallback :
    let config : EngineConfig Unit :=
      { draft := { extra := [("keyframes", fadeAndSpinEntry)] },
        plugins := [.plugin .keyframes, .plugin (.variables [])] }
    let spin : Declaration := ⟨[".$$"], "animation-name", ["spin"]⟩
    let fade : Declaration := ⟨[".$$"], "animation", ["none", "1s fade,fades"]⟩
    let fadeBlock := "@keyframes fade\x7bfrom\x7bopacity:0\x7d\x7d"
    let spinBlock :=
      "@keyframes spin\x7bto\x7bbackground-color:red;background-color:blue\x7d\x7d"
    create config () = some (.ok (animating [], [])) ∧
    (∃ events, Run (animating []) events (animating [spin])) ∧
    (∃ events, Run (animating [spin]) events (animating [spin, fade])) ∧
    decode fadeAndSpinEntry = .ok fadeAndSpin ∧
    (∃ shown shown',
      Writes fadeAndSpin (animating [spin]).store shown spinBlock ∧
      Writes fadeAndSpin (animating [spin, fade]).store shown' (fadeBlock ++ spinBlock) ∧
      shown <+ shown') ∧
    (∀ p ∈ Pipeline.arrange config.plugins, p.Additive) ∧
    ∃ front back : List Preflight,
      (animating [spin]).renderStyles =
        String.join (front.map fun p => p.text (animating [spin]).snapshot) ++ spinBlock
          ++ String.join (back.map fun p => p.text (animating [spin]).snapshot)
          ++ ".a\x7banimation-name:spin\x7d" := by
  intro config spin fade fadeBlock spinBlock
  let fadeItem : StyleItem := .definition [("animation", .property
    (.fallback (.text "none") [.text "1s fade,fades"]))]
  let spinItem : StyleItem := .definition [("animationName", .property (.scalar (.text "spin")))]
  have hcreate : create config () = some (.ok (animating [], [])) := by
    -- both sides are closed once the local definitions are written out
    dsimp +zetaDelta only
    rfl
  have hpreview : Call.perform 1 (.preview [fadeItem]) (animating []) =
      some (.ok (.css ".$$\x7banimation:none;animation:1s fade,fades\x7d"), animating []) := by rfl
  have hspin : Call.perform 1 (.use [spinItem]) (animating []) =
      some (.ok (.outcome ⟨["a"], []⟩), animating [spin]) := by rfl
  have hfade : Call.perform 1 (.use [fadeItem]) (animating [spin]) =
      some (.ok (.outcome ⟨["b"], []⟩), animating [spin, fade]) := by
    dsimp +zetaDelta only
    rfl
  have hrun := Run.cons hpreview (.cons hspin (.nil _))
  have hlater := Run.cons hfade (.nil _)
  have hdecode : decode fadeAndSpinEntry = .ok fadeAndSpin := by rfl
  have hadditive : ∀ p ∈ Pipeline.arrange config.plugins, p.Additive := by
    have hplugins : Pipeline.arrange config.plugins = [.keyframes, .variables []] := by rfl
    rw [hplugins]
    simp only [List.forall_mem_cons]
    exact ⟨Plugin.additive_of_bundled (by simp), Plugin.additive_of_bundled (by simp),
      List.forall_mem_nil _⟩
  have hspinBlock : String.join ((installed fadeAndSpin).map fun p =>
      p.text (animating [spin]).snapshot) = spinBlock := by rfl
  have hbothBlocks : String.join ((installed fadeAndSpin).map fun p =>
      p.text (animating [spin, fade]).snapshot) = fadeBlock ++ spinBlock := by rfl
  have hrules : Stylesheet.render (animating [spin]).store.rules =
      ".a\x7banimation-name:spin\x7d" := by decide +kernel
  obtain ⟨-, hwritten, hpage⟩ := Run.keyframes_emitted hcreate hrun hlater hdecode
  rw [hspinBlock, hbothBlocks] at hwritten
  rw [hspinBlock, hrules] at hpage
  exact ⟨hcreate, ⟨_, hrun⟩, ⟨_, hlater⟩, hdecode, hwritten, hadditive,
    hpage hadditive (.head _) rfl⟩

end Engine

end AtomicCss
