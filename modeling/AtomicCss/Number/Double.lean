/-!
# Double precision numbers

Numbers in style values and in configuration files are binary floating point
numbers of 64 bits. They are kept as what they denote: not a number, an
infinity, or a sign with a mantissa and a power of two, so that nothing here
needs machine arithmetic.

- `Double`: the numbers, and `Double.ofBits` for their interchange format.
- `Double.nearest`: the double nearest to a quotient of natural numbers, a tie
  going to the even mantissa. All other conversions round once through it.
- `Double.ofInt`, `Double.ofDecimal`: integers and decimals, correctly rounded.
-/

namespace AtomicCss

/-- A double precision number. A finite one is `± mantissa * 2 ^ exponent` with
`mantissa < 2 ^ 53`, where the exponent is at least `-1074` and only that
exponent admits a mantissa below `2 ^ 52`. -/
inductive Double where
  | nan
  | infinite (negative : Bool)
  | finite (negative : Bool) (mantissa : Nat) (exponent : Int)
  deriving DecidableEq, Repr

namespace Double

/-- The exponent of the smallest positive double. -/
def leastExponent : Int := -1074

/-- The exponent of the greatest finite double. -/
def greatestExponent : Int := 971

/-- Zero of either sign. -/
def zero (negative : Bool) : Double := .finite negative 0 leastExponent

/-- The number of an interchange bit pattern: a sign bit, eleven bits of
exponent, fifty-two bits of mantissa. -/
def ofBits (bits : UInt64) : Double :=
  let n := bits.toNat
  let negative := n / Nat.pow 2 63 == 1
  let biased : Nat := n / Nat.pow 2 52 % 2048
  let fraction : Nat := n % Nat.pow 2 52
  if biased = 2047 then if fraction = 0 then .infinite negative else .nan
  else if biased = 0 then .finite negative fraction leastExponent
  else .finite negative (fraction + Nat.pow 2 52) ((biased : Int) - 1075)

/-- The quotient rounded to the nearest natural number, a tie to the even one. -/
def divNearest (num den : Nat) : Nat :=
  let q := num / den
  let r := num % den
  if 2 * r < den || (2 * r == den && q % 2 == 0) then q else q + 1

/-- `num / den * 2 ^ (-e)` as a quotient of natural numbers. -/
def scaled (num den : Nat) (e : Int) : Nat × Nat :=
  (num * Nat.pow 2 (-e).toNat, den * Nat.pow 2 e.toNat)

/-- The exponent of the greatest power of two that is at most `num / den`. -/
def binade (num den : Nat) : Int :=
  let guess : Int := num.log2 - den.log2
  let (n, d) := scaled num den guess
  if d ≤ n then guess else guess - 1

/-- The double nearest to `± num / den`. From halfway beyond the greatest finite
double on, the result is infinite. -/
def nearest (negative : Bool) (num den : Nat) : Double :=
  if num = 0 then zero negative
  else
    let e := max (binade num den - 52) leastExponent
    let (n, d) := scaled num den e
    let m := divNearest n d
    let (m, e) := if m = Nat.pow 2 53 then (Nat.pow 2 52, e + 1) else (m, e)
    if greatestExponent < e then .infinite negative else .finite negative m e

/-- The double nearest to an integer. -/
def ofInt (n : Int) : Double := nearest (n < 0) n.natAbs 1

/-- The double nearest to `± digits * 10 ^ exponent`. Exponents far outside the
range of doubles are decided without computing the power. -/
def ofDecimal (negative : Bool) (digits : Nat) (exponent : Int) : Double :=
  let size : Int := digits.log2 + 1
  if digits = 0 then zero negative
  else if 400 < exponent then .infinite negative
  else if exponent + size < -400 then zero negative
  else nearest negative (digits * Nat.pow 10 exponent.toNat) (Nat.pow 10 (-exponent).toNat)

/-- The magnitude of a finite double as a quotient. -/
def magnitude : Double → Nat × Nat
  | .finite _ m e => (m * Nat.pow 2 e.toNat, Nat.pow 2 (-e).toNat)
  | _ => (0, 1)

/-- Is the number negative, or the negative zero? -/
def isNegative : Double → Bool
  | .nan => false
  | .infinite negative => negative
  | .finite negative _ _ => negative

/-- The opposite number. -/
def neg : Double → Double
  | .nan => .nan
  | .infinite negative => .infinite (!negative)
  | .finite negative m e => .finite (!negative) m e

/-- The product of two finite doubles, rounded to the nearest. -/
def mul (a b : Double) : Double :=
  let (n, d) := a.magnitude
  let (n', d') := b.magnitude
  nearest (a.isNegative != b.isNegative) (n * n') (d * d')

/-- The quotient of two finite doubles, rounded to the nearest. -/
def div (a b : Double) : Double :=
  let (n, d) := a.magnitude
  let (n', d') := b.magnitude
  nearest (a.isNegative != b.isNegative) (n * d') (d * n')

/-- The double nearest to a power of ten. -/
def powerOfTen (k : Nat) : Double := ofDecimal false 1 k

end Double

end AtomicCss
