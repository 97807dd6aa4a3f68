import AtomicCss.Declaration
import AtomicCss.Proofs.Json.Legible
import Mathlib.Data.List.Basic

/-!
# Keys identify declarations

The key of a declaration is the JSON text of the array of its three parts: the chain of
selectors, the property and the values. The text is read back as that array, so nothing in
it can be taken for anything else: no quote, bracket or comma inside a string ends a part.

- `Json.strings_inj`: an array of strings determines the list.
- `Declaration.read_key`: a key is read as the array of the three parts.
- `Declaration.key_inj`: a key determines the declaration.
- `Declaration.key_encodes`: two declarations have one key exactly if they agree in all
  three parts.
-/

namespace AtomicCss

theorem Json.strings_inj {xs ys : List String} (h : Json.strings xs = Json.strings ys) :
    xs = ys :=
  List.map_injective_iff.2 (fun _ _ => Json.string.inj) (Json.array.inj h)

namespace Declaration

/-- The three parts of a declaration as one JSON value. -/
def toJson (d : Declaration) : Json :=
  .array [.strings d.chain, .string d.property, .strings d.values]

/-- The parts of a declaration can be told from the array of them. -/
theorem toJson_inj {c d : Declaration} (h : c.toJson = d.toJson) : c = d := by
  obtain ⟨hchain, hproperty, hvalues, -⟩ :
      Json.strings c.chain = .strings d.chain ∧ c.property = d.property ∧
        Json.strings c.values = .strings d.values ∧ True := by
    simpa [toJson] using h
  obtain ⟨_, _, _⟩ := c
  obtain ⟨_, _, _⟩ := d
  obtain rfl := Json.strings_inj hchain
  obtain rfl : _ = _ := hproperty
  obtain rfl := Json.strings_inj hvalues
  rfl

/-- A key is read as the array of the three parts. -/
theorem read_key (d : Declaration) : Json.read d.key = .ok d.toJson := by
  have hlegible : d.toJson.Legible := by
    refine Json.legible_array fun j hj => ?_
    obtain rfl | rfl | rfl : j = .strings d.chain ∨ j = .string d.property ∨
        j = .strings d.values := by simpa using hj
    · exact Json.legible_strings _
    · exact Json.legible_string _
    · exact Json.legible_strings _
  exact Json.read_compact hlegible

/-- A key determines the declaration that it is the key of. -/
theorem key_inj {c d : Declaration} (h : c.key = d.key) : c = d := by
  have hread := read_key c
  rw [h, read_key d] at hread
  exact toJson_inj (Except.ok.inj hread).symm

/-- The key is an injective encoding of the three parts: its text reads back as the array of
them, and two declarations have one key exactly if they agree in all three. -/
theorem key_encodes (c d : Declaration) :
    Json.read c.key =
        .ok (.array [.strings c.chain, .string c.property, .strings c.values]) ∧
      (c.key = d.key ↔ c.chain = d.chain ∧ c.property = d.property ∧ c.values = d.values) := by
  refine ⟨read_key c, fun h => ?_, fun ⟨hchain, hproperty, hvalues⟩ => ?_⟩
  · rw [key_inj h]
    exact ⟨rfl, rfl, rfl⟩
  · rw [key, key, hchain, hproperty, hvalues]

end Declaration

end AtomicCss
