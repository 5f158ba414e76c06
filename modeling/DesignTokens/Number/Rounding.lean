set_option autoImplicit false

/-! # Rounding rationals

`roundHalfEven` is the integer nearest to a rational, and `floorLog` the exponent of the
largest power of a base that is not above it. Decimal arithmetic and double precision
numbers round with the same two functions.
-/

namespace DesignTokens

/-- The integer nearest to `q`; of two at the same distance the even one. -/
def roundHalfEven (q : Rat) : Int :=
  let below := q.floor
  let excess := q - below
  if excess < 1 / 2 ∨ (excess = 1 / 2 ∧ below % 2 = 0) then below else below + 1

/-- The number of digits of `n` in a base. -/
def digitCount (base n : Nat) : Nat := (Nat.toDigits base n).length

/-- The largest `k` with `base ^ k ≤ q`, for a positive `q` and a base above one. The digit
counts of numerator and denominator leave two candidates. -/
def floorLog (base : Nat) (q : Rat) : Int :=
  let k : Int := digitCount base q.num.natAbs - digitCount base q.den
  if (base : Rat) ^ k ≤ q then k else k - 1

end DesignTokens
