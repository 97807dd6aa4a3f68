import AtomicCss.Number.Double

/-!
# The shortest decimal of a double

A finite double stands for the interval of reals that round to it, with the ends
when its mantissa is even. Its shortest decimal has the fewest digits of all
decimals in that interval, and of those it is the one nearest to the double.

- `Decimal.ofFinite`: the shortest decimal of `mantissa * 2 ^ exponent`.
- `Decimal.candidate?`: the choice among the two neighbours of the double on the
  grid of decimals with a given number of digits; a grid on which neither
  neighbour lies in the interval has no other point in it.
-/

namespace AtomicCss

/-- `digits * 10 ^ exponent`. -/
structure Decimal where
  digits : Nat
  exponent : Int
  deriving DecidableEq, Repr

/-- Which of two equally near decimals is chosen. -/
inductive Tie where
  | up
  | even
  deriving DecidableEq, Repr

namespace Decimal

/-- The number of decimal digits of a natural number. -/
def width (n : Nat) : Nat := (Nat.toDigits 10 n).length

/-- The least `k` with `num / den < 10 ^ k`, for positive numbers. -/
def scale (num den : Nat) : Int :=
  if den ≤ num then width (num / den)
  else 1 - (width ((den - 1) / num) : Int)

/-- Drop zeros at the end of the digits, at most `bound` of them. -/
def strip : (bound : Nat) → Decimal → Decimal
  | 0, d => d
  | bound + 1, d =>
    if d.digits ≠ 0 ∧ d.digits % 10 = 0 then strip bound ⟨d.digits / 10, d.exponent + 1⟩ else d

/-- The point of the grid `10 ^ g` that stands for `mantissa * 2 ^ exponent`, if
one of the two neighbours on the grid lies in the interval. Everything is
compared in units of a quarter of the last place. -/
def candidate? (tie : Tie) (mantissa : Nat) (exponent g : Int) : Option Decimal :=
  let unit := Nat.pow 2 (exponent - 2).toNat * Nat.pow 10 (-g).toNat
  let grid := Nat.pow 2 (2 - exponent).toNat * Nat.pow 10 g.toNat
  let value := 4 * mantissa * unit
  let high := (4 * mantissa + 2) * unit
  let low :=
    if mantissa = Nat.pow 2 52 ∧ Double.leastExponent < exponent then (4 * mantissa - 1) * unit
    else (4 * mantissa - 2) * unit
  let inside (c : Nat) : Bool :=
    if mantissa % 2 = 0 then low ≤ c * grid && c * grid ≤ high
    else low < c * grid && c * grid < high
  let below := value / grid
  let half := (2 * below + 1) * grid
  match inside below, inside (below + 1) with
  | false, false => none
  | true, false => some ⟨below, g⟩
  | false, true => some ⟨below + 1, g⟩
  | true, true =>
    if 2 * value < half then some ⟨below, g⟩
    else if half < 2 * value then some ⟨below + 1, g⟩
    else match tie with
      | .up => some ⟨below + 1, g⟩
      | .even => some ⟨if below % 2 = 0 then below else below + 1, g⟩

/-- The exact value of `mantissa * 2 ^ exponent`. -/
def exact (mantissa : Nat) (exponent : Int) : Decimal :=
  if 0 ≤ exponent then ⟨mantissa * Nat.pow 2 exponent.toNat, 0⟩
  else ⟨mantissa * Nat.pow 5 (-exponent).toNat, exponent⟩

/-- The shortest decimal of a positive finite double. Seventeen digits always
suffice; the exact value stands behind them. -/
def ofFinite (tie : Tie) (mantissa : Nat) (exponent : Int) : Decimal :=
  let k := scale (mantissa * Nat.pow 2 exponent.toNat) (Nat.pow 2 (-exponent).toNat)
  let found := (List.range 17).findSome? fun (n : Nat) =>
    candidate? tie mantissa exponent (k - (n + 1 : Nat))
  strip 800 (found.getD (exact mantissa exponent))

end Decimal

end AtomicCss
