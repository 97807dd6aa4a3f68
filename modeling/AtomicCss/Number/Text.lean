import AtomicCss.Number.Decimal

/-!
# The text of a number

A number is written with the digits of its shortest decimal, positionally when
its decimal exponent lies in a range, otherwise with an exponent whose sign is
always written. The decisions of a format are the fields of a `NumberFormat`.

- `NumberFormat.render`: the text of a double in a format.
- `NumberFormat.style`: numbers in stylesheets.
- `NumberFormat.data`: numbers in data files and in texts about them.
-/

namespace AtomicCss

/-- How a number is laid out. -/
structure NumberFormat where
  /-- Least decimal exponent that is written positionally. -/
  lowest : Int
  /-- Greatest decimal exponent that is written positionally. -/
  highest : Int
  /-- Does a positional integer end in `.0`? -/
  pointZero : Bool
  /-- Does the negative zero keep its sign? -/
  signedZero : Bool
  /-- Which of two equally near decimals is written. -/
  tie : Tie
  deriving DecidableEq, Repr

namespace NumberFormat

/-- Numbers in stylesheets: positional from `0.000001` to below `1e+21`, no
negative zero, integers without a point, a tie away from zero. -/
def style : NumberFormat := ⟨-6, 20, false, false, .up⟩

/-- Numbers in data files: positional from `0.00001` to below `1e+16`, the sign
of zero kept, always a point or an exponent, a tie to the even digit. -/
def data : NumberFormat := ⟨-5, 15, true, true, .even⟩

/-- `n` zeros. -/
def zeros (n : Nat) : List Char := List.replicate n '0'

/-- Digits written with a decimal point after the first `point` of them. -/
def positional (pointZero : Bool) (ds : List Char) (point : Int) : List Char :=
  let n : Int := ds.length
  if point ≤ 0 then '0' :: '.' :: (zeros (-point).toNat ++ ds)
  else if n ≤ point then
    ds ++ zeros (point - n).toNat ++ (if pointZero then ['.', '0'] else [])
  else ds.take point.toNat ++ '.' :: ds.drop point.toNat

/-- Digits written with a point after the first of them, and an exponent. -/
def scientific (ds : List Char) (exponent : Int) : List Char :=
  let mantissa := match ds with
    | [] => []
    | [d] => [d]
    | d :: ds => d :: '.' :: ds
  let sign := if exponent < 0 then '-' else '+'
  mantissa ++ 'e' :: sign :: Nat.toDigits 10 exponent.natAbs

/-- The text of a positive decimal. -/
def renderDecimal (format : NumberFormat) (d : Decimal) : List Char :=
  let ds := Nat.toDigits 10 d.digits
  let point : Int := ds.length + d.exponent
  let exponent := point - 1
  if format.lowest ≤ exponent ∧ exponent ≤ format.highest then
    positional format.pointZero ds point
  else scientific ds exponent

/-- The text of a double. -/
def render (format : NumberFormat) : Double → String
  | .nan => "NaN"
  | .infinite negative => if negative then "-Infinity" else "Infinity"
  | .finite negative m e =>
    if m = 0 then
      let digits := if format.pointZero then "0.0" else "0"
      if negative && format.signedZero then "-" ++ digits else digits
    else
      let text := format.renderDecimal (Decimal.ofFinite format.tie m e)
      String.ofList (if negative then '-' :: text else text)

end NumberFormat

end AtomicCss
