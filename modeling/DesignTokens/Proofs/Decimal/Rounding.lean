import DesignTokens.Decimal.Rounding
import Mathlib.Data.Rat.Floor
import Mathlib.Tactic.Linarith
import Mathlib.Tactic.NormNum
import Mathlib.Tactic.Ring

set_option autoImplicit false

/-! # Laws of decimal rounding

Rounding depends on the value of its argument only, is symmetric about zero (`nearest?_neg`)
and keeps every value that a decimal has (`nearest?_toRat`). So a product may be negated
before or after it is computed, and adding to zero loses nothing.
-/

namespace DesignTokens

/-! ## The nearest integer -/

section

variable {q : Rat} {n : Int}

theorem roundHalfEven_of_below (hfloor : q.floor = n) (h : q - n < 1 / 2) :
    roundHalfEven q = n := by
  subst hfloor
  exact if_pos (Or.inl h)

theorem roundHalfEven_of_above (hfloor : q.floor = n) (h : 1 / 2 < q - n) :
    roundHalfEven q = n + 1 := by
  subst hfloor
  refine if_neg ?_
  rintro (hlt | ⟨heq, -⟩) <;> linarith

theorem roundHalfEven_of_half (hfloor : q.floor = n) (h : q - n = 1 / 2) :
    roundHalfEven q = if n % 2 = 0 then n else n + 1 := by
  subst hfloor
  simp [roundHalfEven, h]

end

theorem roundHalfEven_intCast (n : Int) : roundHalfEven (n : Rat) = n := by
  have hfloor : (n : Rat).floor = n := Int.floor_intCast (R := Rat) n
  refine roundHalfEven_of_below hfloor ?_
  rw [sub_self]
  norm_num

/-- Rounding does not pass an integer. -/
theorem roundHalfEven_le {q : Rat} {n : Int} (h : q ≤ n) : roundHalfEven q ≤ n := by
  have hfloor : q.floor ≤ n := by
    have hle : (q.floor : Rat) ≤ n := (Int.floor_le q).trans h
    exact_mod_cast hle
  rcases hfloor.eq_or_lt with heq | hlt
  · have hexcess : q - n < 1 / 2 := by linarith
    rw [roundHalfEven_of_below heq hexcess]
  · unfold roundHalfEven
    dsimp only
    split_ifs <;> omega

/-- Rounding is symmetric: a half goes to the even neighbour on either side of zero. -/
theorem roundHalfEven_neg (q : Rat) : roundHalfEven (-q) = -roundHalfEven q := by
  obtain ⟨n, hn⟩ : ∃ n, q.floor = n := ⟨_, rfl⟩
  have hle : (n : Rat) ≤ q := by
    rw [← hn]
    exact Int.floor_le q
  have hlt : q < (n : Rat) + 1 := by
    rw [← hn]
    exact Int.lt_floor_add_one q
  -- an integer is not rounded; otherwise `-q` lies between `-n - 1` and `-n`
  rcases hle.eq_or_lt with hint | hbetween
  · rw [← hint, ← Int.cast_neg, roundHalfEven_intCast, roundHalfEven_intCast]
  have hneg : (-q).floor = -n - 1 := by
    have hbounds : ((-n - 1 : Int) : Rat) ≤ -q ∧ -q < ((-n - 1 : Int) : Rat) + 1 := by
      push_cast
      exact ⟨by linarith, by linarith⟩
    exact Int.floor_eq_iff.mpr hbounds
  -- the excess of `-q` over its floor is one minus that of `q`
  have hexcess : -q - ((-n - 1 : Int) : Rat) = 1 - (q - n) := by
    push_cast
    ring
  rcases lt_trichotomy (q - n) (1 / 2) with hbelow | hhalf | habove
  · rw [roundHalfEven_of_below hn hbelow, roundHalfEven_of_above hneg (by linarith)]
    ring
  · rw [roundHalfEven_of_half hn hhalf, roundHalfEven_of_half hneg (by linarith)]
    split_ifs <;> omega
  · rw [roundHalfEven_of_above hn habove, roundHalfEven_of_below hneg (by linarith)]
    ring

namespace Decimal

/-! ## The nearest decimal -/

theorem toRat_neg (d : Decimal) : d.neg.toRat = -d.toRat := by
  unfold toRat neg
  push_cast
  ring

theorem atScale?_neg (q : Rat) (scale : Nat) (h : scale ≤ maxScale) :
    atScale? (-q) scale h = (atScale? q scale h).map neg := by
  have hcoefficient : roundHalfEven (-q * 10 ^ scale) = -roundHalfEven (q * 10 ^ scale) := by
    rw [neg_mul, roundHalfEven_neg]
  unfold atScale?
  simp only [hcoefficient, Int.natAbs_neg]
  split <;> rfl

theorem nearestUpTo?_neg (q : Rat) (scale : Nat) (h : scale ≤ maxScale) :
    nearestUpTo? (-q) scale h = (nearestUpTo? q scale h).map neg := by
  induction scale with
  | zero => exact atScale?_neg q 0 h
  | succ scale ih =>
      rw [nearestUpTo?, nearestUpTo?, atScale?_neg, ih]
      cases atScale? q (scale + 1) h <;> rfl

/-- Rounding to a decimal is symmetric, and so is overflow. -/
theorem nearest?_neg (q : Rat) : nearest? (-q) = (nearest? q).map neg :=
  nearestUpTo?_neg q maxScale (Nat.le_refl _)

theorem mul?_neg_left (a b : Decimal) : a.neg.mul? b = (a.mul? b).map neg := by
  rw [mul?, mul?, toRat_neg, neg_mul, nearest?_neg]

theorem div?_neg_left (a b : Decimal) : a.neg.div? b = (a.div? b).map neg := by
  rw [div?, div?, toRat_neg, neg_div, nearest?_neg]

theorem toRat_mul_pow {d : Decimal} {scale : Nat} (hle : d.scale ≤ scale) :
    d.toRat * 10 ^ scale = ((d.coefficient * 10 ^ (scale - d.scale) : Int) : Rat) := by
  have hpow : (10 : Rat) ^ scale = 10 ^ d.scale * 10 ^ (scale - d.scale) := by
    rw [← pow_add, Nat.add_sub_cancel' hle]
  have hne : (10 : Rat) ^ d.scale ≠ 0 := by positivity
  calc d.toRat * 10 ^ scale
      = (d.coefficient : Rat) / 10 ^ d.scale * 10 ^ d.scale * 10 ^ (scale - d.scale) := by
        rw [toRat, hpow, mul_assoc]
    _ = (d.coefficient : Rat) * 10 ^ (scale - d.scale) := by rw [div_mul_cancel₀ _ hne]
    _ = ((d.coefficient * 10 ^ (scale - d.scale) : Int) : Rat) := by push_cast; rfl

/-- At a scale that is not smaller than its own a decimal keeps its value, unless the larger
coefficient does not fit. -/
theorem atScale?_toRat {d : Decimal} {scale : Nat} (h : scale ≤ maxScale)
    (hle : d.scale ≤ scale) :
    (∃ d', atScale? d.toRat scale h = some d' ∧ d'.toRat = d.toRat) ∨
      atScale? d.toRat scale h = none ∧ d.scale ≠ scale := by
  have hround : roundHalfEven (d.toRat * 10 ^ scale) =
      d.coefficient * 10 ^ (scale - d.scale) := by
    rw [toRat_mul_pow hle, roundHalfEven_intCast]
  have hvalue : ((d.coefficient * 10 ^ (scale - d.scale) : Int) : Rat) / 10 ^ scale =
      d.toRat := by
    rw [← toRat_mul_pow hle, mul_div_cancel_right₀ _ (by positivity)]
  unfold atScale?
  simp only [hround]
  by_cases hfits : (d.coefficient * 10 ^ (scale - d.scale)).natAbs < coefficientBound
  · rw [dif_pos hfits]
    exact Or.inl ⟨_, rfl, hvalue⟩
  · rw [dif_neg hfits]
    -- at its own scale the coefficient is the decimal's, which fits
    refine Or.inr ⟨rfl, fun hsame => hfits ?_⟩
    rw [hsame, Nat.sub_self, pow_zero, mul_one]
    exact d.coefficient_lt

theorem nearestUpTo?_toRat {d : Decimal} {scale : Nat} (h : scale ≤ maxScale)
    (hle : d.scale ≤ scale) :
    ∃ d', nearestUpTo? d.toRat scale h = some d' ∧ d'.toRat = d.toRat := by
  induction scale with
  | zero =>
      rcases atScale?_toRat h hle with hfits | ⟨-, hne⟩
      · exact hfits
      · omega
  | succ scale ih =>
      rw [nearestUpTo?]
      rcases atScale?_toRat h hle with ⟨d', hd', hvalue⟩ | ⟨hnone, hne⟩
      · rw [hd']
        exact ⟨d', rfl, hvalue⟩
      · rw [hnone]
        exact ih (by omega) (by omega)

/-- The value of a decimal survives rounding. -/
theorem nearest?_toRat (d : Decimal) :
    ∃ d', nearest? d.toRat = some d' ∧ d'.toRat = d.toRat :=
  nearestUpTo?_toRat (Nat.le_refl _) d.scale_le

theorem zero_toRat : zero.toRat = 0 := by
  simp [toRat, zero]

theorem isZero_iff {d : Decimal} : d.isZero = true ↔ d.toRat = 0 := by
  have hne : (10 : Rat) ^ d.scale ≠ 0 := by positivity
  simp [isZero, toRat, div_eq_zero_iff, hne]

end Decimal

end DesignTokens
