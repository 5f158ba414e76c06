set_option autoImplicit false

/-! # Decimal numbers

A decimal is an integer coefficient divided by a power of ten, with the coefficient below
`2 ^ 96` in magnitude and at most 28 decimal places. Two decimals may have one value:
`1.5` and `1.50` differ in their scale. `Decimal.normalize` picks the shortest of them,
and `Decimal.text` writes a decimal with exactly as many places as its scale.

Arithmetic is in `Decimal/Rounding.lean`, the reading of literals in `Decimal/Reader.lean`.
-/

namespace DesignTokens

/-- The largest number of decimal places. -/
def maxScale : Nat := 28

/-- The magnitude a coefficient stays below, `2 ^ 96`. -/
def coefficientBound : Nat := 79228162514264337593543950336

/-- The number `coefficient / 10 ^ scale`. -/
structure Decimal where
  coefficient : Int
  scale : Nat
  coefficient_lt : coefficient.natAbs < coefficientBound
  scale_le : scale ≤ maxScale
  deriving DecidableEq, Repr

namespace Decimal

/-- Zero without decimal places. -/
def zero : Decimal := ⟨0, 0, by decide, by decide⟩

instance : Inhabited Decimal := ⟨zero⟩

/-- The value of a decimal. -/
def toRat (d : Decimal) : Rat := (d.coefficient : Rat) / (10 : Rat) ^ d.scale

/-- A decimal is zero when its coefficient is, whatever its scale. -/
def isZero (d : Decimal) : Bool := d.coefficient == 0

/-- The number with the other sign. -/
def neg (d : Decimal) : Decimal :=
  { d with
    coefficient := -d.coefficient
    coefficient_lt := by rw [Int.natAbs_neg]; exact d.coefficient_lt }

/-- The number without the zeros at the end of its decimal places. -/
def normalizeFrom (coefficient : Int) :
    (scale : Nat) → coefficient.natAbs < coefficientBound → scale ≤ maxScale → Decimal
  | 0, hc, hs => ⟨coefficient, 0, hc, hs⟩
  | scale + 1, hc, hs =>
    if coefficient % 10 = 0 then
      normalizeFrom (coefficient / 10) scale (by omega) (by omega)
    else
      ⟨coefficient, scale + 1, hc, hs⟩

/-- The decimal of the same value with the fewest decimal places; zero has none. -/
def normalize (d : Decimal) : Decimal :=
  normalizeFrom d.coefficient d.scale d.coefficient_lt d.scale_le

/-- Decimal notation: a minus sign if the number is negative, at least one digit before the
point, and `scale` digits after it. -/
def text (d : Decimal) : String :=
  let digits := (Nat.toDigits 10 d.coefficient.natAbs).leftpad (d.scale + 1) '0'
  let whole := digits.take (digits.length - d.scale)
  let places := digits.drop (digits.length - d.scale)
  String.ofList <|
    (if d.coefficient < 0 then ['-'] else []) ++ whole ++
      (if d.scale = 0 then [] else '.' :: places)

end Decimal

end DesignTokens
