import DesignTokens.Number.Rounding
import Mathlib.Data.Int.Log
import Mathlib.Data.Rat.Floor
import Mathlib.Tactic.FieldSimp
import Mathlib.Tactic.Linarith
import Mathlib.Tactic.Positivity

set_option autoImplicit false

/-! # Logarithms from digit counts

`floorLog` subtracts digit counts of numerator and denominator and decides between the two
candidates by one comparison. It is the logarithm, rounded down (`floorLog_eq_log`), so the
powers next to a number follow from the library's laws.
-/

namespace DesignTokens

variable {base n : Nat}

theorem lt_pow_digitCount (hbase : 1 < base) : n < base ^ digitCount base n :=
  (Nat.length_toDigits_le_iff hbase Nat.length_toDigits_pos).mp (Nat.le_refl _)

theorem pow_digitCount_le (hbase : 1 < base) (hn : 0 < n) :
    base ^ digitCount base n ≤ base * n := by
  have hcount : 0 < digitCount base n := Nat.length_toDigits_pos
  by_cases hone : digitCount base n = 1
  · rw [hone, pow_one]
    exact Nat.le_mul_of_pos_right base hn
  · -- one digit fewer is too few
    have hmore : 0 < digitCount base n - 1 := by omega
    have hfewer : base ^ (digitCount base n - 1) ≤ n := by
      rw [← not_lt, ← Nat.length_toDigits_le_iff hbase hmore, ← digitCount]
      omega
    calc base ^ digitCount base n
        = base * base ^ (digitCount base n - 1) := by rw [← pow_succ', Nat.sub_add_cancel hcount]
      _ ≤ base * n := Nat.mul_le_mul_left base hfewer

/-- The logarithm of a quotient lies next to the difference of the digit counts. -/
theorem log_div_mem (hbase : 1 < base) {a b : Nat} (ha : 0 < a) (hb : 0 < b) :
    ((digitCount base a : Int) - digitCount base b - 1 ≤ Int.log base ((a : Rat) / b)) ∧
      Int.log base ((a : Rat) / b) < (digitCount base a : Int) - digitCount base b + 1 := by
  have hbase0 : (0 : Rat) < base := by exact_mod_cast Nat.zero_lt_of_lt hbase
  have hq : (0 : Rat) < (a : Rat) / b := by positivity
  have haUpper : (a : Rat) < base ^ digitCount base a := by
    exact_mod_cast lt_pow_digitCount (n := a) hbase
  have haLower : (base : Rat) ^ digitCount base a ≤ base * a := by
    exact_mod_cast pow_digitCount_le hbase ha
  have hbUpper : (b : Rat) < base ^ digitCount base b := by
    exact_mod_cast lt_pow_digitCount (n := b) hbase
  have hbLower : (base : Rat) ^ digitCount base b ≤ base * b := by
    exact_mod_cast pow_digitCount_le hbase hb
  constructor
  · rw [← Int.zpow_le_iff_le_log hbase hq, zpow_sub₀ hbase0.ne', zpow_sub₀ hbase0.ne', zpow_one,
      zpow_natCast, zpow_natCast, div_div, div_le_div_iff₀ (by positivity) (by positivity)]
    nlinarith
  · rw [← Int.lt_zpow_iff_log_lt hbase hq, zpow_add₀ hbase0.ne', zpow_sub₀ hbase0.ne', zpow_one,
      zpow_natCast, zpow_natCast, div_mul_eq_mul_div, div_lt_div_iff₀ (by positivity) (by positivity)]
    nlinarith

theorem floorLog_eq_log (hbase : 1 < base) {q : Rat} (hq : 0 < q) :
    floorLog base q = Int.log base q := by
  have hnum : 0 < q.num := Rat.num_pos.mpr hq
  have hvalue : (q.num.natAbs : Rat) / q.den = q := by
    have habs : ((q.num.natAbs : Nat) : Rat) = q.num := by
      rw [← Int.cast_natCast, Int.natAbs_of_nonneg hnum.le]
    rw [habs, Rat.num_div_den]
  obtain ⟨hlower, hupper⟩ := log_div_mem hbase (Int.natAbs_pos.mpr hnum.ne') q.den_pos
  rw [hvalue] at hlower hupper
  have hcandidate := Int.zpow_le_iff_le_log hbase hq
    (x := (digitCount base q.num.natAbs : Int) - digitCount base q.den)
  simp only [floorLog, hcandidate]
  split_ifs <;> omega

theorem lt_pow_floorLog (hbase : 1 < base) {q : Rat} (hq : 0 < q) :
    q < (base : Rat) ^ (floorLog base q + 1) := by
  rw [floorLog_eq_log hbase hq]
  exact Int.lt_zpow_succ_log_self hbase q

end DesignTokens
