import DesignTokens.Decimal.Basic
import DesignTokens.Number.Rounding

set_option autoImplicit false

/-! # Decimal arithmetic

Each operation takes the exact rational result and rounds it once: to the nearest decimal
at the largest scale at which the rounded coefficient fits, a half going to the even
neighbour. Where the coefficient does not fit even without decimal places, there is no
result (`none`).
-/

namespace DesignTokens

namespace Decimal

/-- The decimal nearest to `q` with `scale` places, if its coefficient fits. -/
def atScale? (q : Rat) (scale : Nat) (h : scale ≤ maxScale) : Option Decimal :=
  let coefficient := roundHalfEven (q * (10 : Rat) ^ scale)
  if hc : coefficient.natAbs < coefficientBound then
    some ⟨coefficient, scale, hc, h⟩
  else
    none

/-- The decimal nearest to `q` at the largest scale up to `scale` at which it fits. -/
def nearestUpTo? (q : Rat) : (scale : Nat) → scale ≤ maxScale → Option Decimal
  | 0, h => atScale? q 0 h
  | scale + 1, h =>
    match atScale? q (scale + 1) h with
    | some d => some d
    | none => nearestUpTo? q scale (by omega)

/-- The decimal nearest to `q` at the largest scale at which it fits. -/
def nearest? (q : Rat) : Option Decimal := nearestUpTo? q maxScale (Nat.le_refl _)

/-- The rounded sum, unless it overflows. -/
def add? (a b : Decimal) : Option Decimal := nearest? (a.toRat + b.toRat)

/-- The rounded product, unless it overflows. -/
def mul? (a b : Decimal) : Option Decimal := nearest? (a.toRat * b.toRat)

/-- The rounded quotient, unless it overflows; the divisor is not zero. -/
def div? (a b : Decimal) : Option Decimal := nearest? (a.toRat / b.toRat)

end Decimal

end DesignTokens
