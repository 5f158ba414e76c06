import DesignTokens.Number.Rounding

set_option autoImplicit false

/-! # Double precision numbers

The finite magnitudes of the 64-bit binary format: an integer below `2 ^ 53` times a power
of two, the exponent not below -1074. `Binary64.nearest?` rounds a rational to the nearest
of them, and `Binary64.shortest` finds the fewest decimal digits that round back: it tries
1, 2, … 17 digits and takes the first decimal grid on which a neighbour of the number
rounds to it. Everything is computed exactly.
-/

namespace DesignTokens

/-- The magnitude `significand * 2 ^ exponent`. -/
structure Binary64 where
  significand : Nat
  exponent : Int
  deriving DecidableEq, Repr

namespace Binary64

/-- The least exponent of two. -/
def minExponent : Int := -1074

/-- The largest exponent of two. -/
def maxExponent : Int := 971

/-- The least significand of a number that is not subnormal, `2 ^ 52`; significands stay
below twice as much. -/
def leadingBit : Nat := 4503599627370496

/-- Zero. -/
def zero : Binary64 := ⟨0, minExponent⟩

/-- The value of a double precision magnitude. -/
def toRat (x : Binary64) : Rat := (x.significand : Rat) * (2 : Rat) ^ x.exponent

/-- The magnitude nearest to a rational that is not negative, the even one of two at the
same distance; `none` from where the nearest would be out of range. -/
def nearest? (q : Rat) : Option Binary64 :=
  if q = 0 then
    some zero
  else
    let exponent := max (floorLog 2 q - 52) minExponent
    let significand := (roundHalfEven (q / (2 : Rat) ^ exponent)).toNat
    let carried : Binary64 :=
      if significand = 2 * leadingBit then ⟨leadingBit, exponent + 1⟩ else ⟨significand, exponent⟩
    if carried.exponent ≤ maxExponent then some carried else none

/-- Whether a rational rounds to a positive magnitude: it lies within half the distance to
the neighbour on its side, and halfway only if the significand is even. -/
def roundsTo (x : Binary64) (q : Rat) : Bool :=
  let step := (2 : Rat) ^ x.exponent
  let stepBelow :=
    if x.significand = leadingBit ∧ minExponent < x.exponent then step / 2 else step
  let low := x.toRat - stepBelow / 2
  let high := x.toRat + step / 2
  if x.significand % 2 = 0 then low ≤ q && q ≤ high else low < q && q < high

/-- The number with `digits` significant decimal digits nearest to a positive magnitude
among its two neighbours that round to it, if there is one. The result is an integer and
the power of ten it counts. -/
def onGrid? (x : Binary64) (digits : Nat) : Option (Nat × Int) :=
  let exponent := floorLog 10 x.toRat - (digits : Int) + 1
  let unit := (10 : Rat) ^ exponent
  let scaled := x.toRat / unit
  let nearest := roundHalfEven scaled
  let other := if nearest ≤ scaled then nearest + 1 else nearest - 1
  let hit (n : Int) : Bool := 0 < n && x.roundsTo (n * unit)
  if hit nearest then some (nearest.toNat, exponent)
  else if hit other then some (other.toNat, exponent)
  else none

/-- The fewest significant digits, from `digits` on and with `more` to try after that, that
round to a positive magnitude. -/
def shortestFrom (x : Binary64) (digits : Nat) : (more : Nat) → Nat × Int
  | 0 => (x.onGrid? digits).getD (0, 0)
  | more + 1 =>
    match x.onGrid? digits with
    | some hit => hit
    | none => shortestFrom x (digits + 1) more

/-- The shortest decimal digits of a positive magnitude and the power of ten of the last
digit; 17 digits always suffice. -/
def shortest (x : Binary64) : Nat × Int := shortestFrom x 1 16

end Binary64

end DesignTokens
