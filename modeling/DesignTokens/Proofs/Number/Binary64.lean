import DesignTokens.Number.Binary64
import DesignTokens.Proofs.Decimal.Rounding
import DesignTokens.Proofs.Number.Logarithm

set_option autoImplicit false

/-! # The range of double precision numbers

What `Binary64.nearest?` rounds to is in the range of the format
(`inRange_of_nearest?`). Such a number lies between `10 ^ -1074` and `10 ^ 1024`, which is
far from sharp but bounds the exponents that are written: `Binary64.shortest` gives at most
17 digits, or a one and zeros that rounding carried into an 18th (`shortest_bounds`).
-/

namespace DesignTokens

namespace Binary64

/-- Significand and exponent are those of the format. -/
structure InRange (x : Binary64) : Prop where
  significand_lt : x.significand < 2 * leadingBit
  minExponent_le : minExponent ≤ x.exponent
  exponent_le : x.exponent ≤ maxExponent

variable {x : Binary64}

theorem toRat_nonneg (x : Binary64) : 0 ≤ x.toRat :=
  mul_nonneg (Nat.cast_nonneg _) (Rat.zpow_pos (by norm_num)).le

theorem toRat_pos (h : 0 < x.significand) : 0 < x.toRat :=
  mul_pos (by exact_mod_cast h) (Rat.zpow_pos (by norm_num))

/-! ## Rounding to the format -/

theorem inRange_zero : zero.InRange :=
  ⟨by decide, by decide, by decide⟩

/-- On the grid that `nearest?` rounds to, a number counts at most `2 ^ 53` steps. -/
theorem roundHalfEven_div_le {q : Rat} (hq : 0 < q) {exponent : Int}
    (hexponent : floorLog 2 q - 52 ≤ exponent) :
    roundHalfEven (q / (2 : Rat) ^ exponent) ≤ 2 * leadingBit := by
  apply roundHalfEven_le
  have hstep : (0 : Rat) < (2 : Rat) ^ exponent := Rat.zpow_pos (by norm_num)
  rw [div_le_iff₀ hstep]
  calc q ≤ (2 : Rat) ^ (floorLog 2 q + 1) := (lt_pow_floorLog Nat.one_lt_two hq).le
    _ ≤ (2 : Rat) ^ (53 + exponent) := zpow_le_zpow_right₀ (by norm_num) (by omega)
    _ = ((2 * leadingBit : Nat) : Int) * (2 : Rat) ^ exponent := by
      rw [zpow_add₀ (by norm_num)]
      norm_num [leadingBit]

/-- Rounding stays within the format. -/
theorem inRange_of_nearest? {q : Rat} (hq : 0 ≤ q) (h : nearest? q = some x) : x.InRange := by
  unfold nearest? at h
  split at h
  · cases h
    exact inRange_zero
  · rename_i hne
    have hpos : 0 < q := lt_of_le_of_ne hq (Ne.symm hne)
    have hsteps := roundHalfEven_div_le hpos (le_max_left (floorLog 2 q - 52) minExponent)
    have hmin : minExponent ≤ max (floorLog 2 q - 52) minExponent := le_max_right _ _
    dsimp only at h
    generalize max (floorLog 2 q - 52) minExponent = exponent at h hsteps hmin
    generalize (roundHalfEven (q / (2 : Rat) ^ exponent)) = steps at h hsteps
    have hsignificand : steps.toNat ≤ 2 * leadingBit := by omega
    -- a significand that reached `2 ^ 53` is carried into the exponent
    split_ifs at h with hcarry hmax hmax
    · cases h
      refine ⟨?_, ?_, hmax⟩
      · show leadingBit < 2 * leadingBit
        decide
      · show minExponent ≤ exponent + 1
        omega
    · cases h
      refine ⟨?_, hmin, hmax⟩
      show steps.toNat < 2 * leadingBit
      omega

/-! ## Decimal magnitude -/

/-- Below one, a power of ten is the smaller one. -/
theorem zpow_neg_ten_le_two (n : Nat) : ((10 : Nat) : Rat) ^ (-(n : Int)) ≤ 2 ^ (-(n : Int)) := by
  rw [zpow_neg, zpow_neg, zpow_natCast, zpow_natCast]
  exact inv_anti₀ (by positivity) (pow_le_pow_left₀ (by norm_num) (by norm_num) n)

theorem InRange.zpow_le_toRat (hx : x.InRange) (hpos : 0 < x.significand) :
    ((10 : Nat) : Rat) ^ (-1074 : Int) ≤ x.toRat := by
  have hone : (1 : Rat) ≤ x.significand := by exact_mod_cast hpos
  have hstep : (0 : Rat) < 2 ^ x.exponent := Rat.zpow_pos (by norm_num)
  calc ((10 : Nat) : Rat) ^ (-1074 : Int)
      ≤ 2 ^ (-1074 : Int) := zpow_neg_ten_le_two 1074
    _ ≤ 2 ^ x.exponent := zpow_le_zpow_right₀ (by norm_num) hx.minExponent_le
    _ ≤ x.toRat := le_mul_of_one_le_left hstep.le hone

theorem InRange.toRat_lt_zpow (hx : x.InRange) : x.toRat < ((10 : Nat) : Rat) ^ (1024 : Int) := by
  have hsignificand : (x.significand : Rat) ≤ 2 ^ (53 : Int) := by
    have hlt := hx.significand_lt
    have hbit : 2 * leadingBit = 2 ^ 53 := by decide
    rw [hbit] at hlt
    exact_mod_cast hlt.le
  have hstep : (0 : Rat) < 2 ^ x.exponent := Rat.zpow_pos (by norm_num)
  calc x.toRat
      ≤ 2 ^ (53 : Int) * 2 ^ x.exponent := mul_le_mul_of_nonneg_right hsignificand hstep.le
    _ = 2 ^ (53 + x.exponent) := (zpow_add₀ (by norm_num) _ _).symm
    _ ≤ 2 ^ ((1024 : Nat) : Int) := by
      have hle : x.exponent ≤ 971 := hx.exponent_le
      exact zpow_le_zpow_right₀ (by norm_num) (by omega)
    _ < ((10 : Nat) : Rat) ^ ((1024 : Nat) : Int) := by
      rw [zpow_natCast, zpow_natCast]
      exact pow_lt_pow_left₀ (by norm_num) (by norm_num) (by norm_num)

theorem InRange.log_bounds (hx : x.InRange) (hpos : 0 < x.significand) :
    -1074 ≤ floorLog 10 x.toRat ∧ floorLog 10 x.toRat < 1024 := by
  have hvalue := toRat_pos hpos
  rw [floorLog_eq_log (by decide) hvalue]
  exact ⟨(Int.zpow_le_iff_le_log (by decide) hvalue).mp (hx.zpow_le_toRat hpos),
    (Int.lt_zpow_iff_log_lt (by decide) hvalue).mp hx.toRat_lt_zpow⟩

/-! ## Decimal digits -/

/-- A number with so many digits that `onGrid?` finds. -/
theorem onGrid?_bounds (hpos : 0 < x.significand) {digits n : Nat} {exponent : Int}
    (h : x.onGrid? digits = some (n, exponent)) :
    0 < n ∧ n ≤ 10 ^ digits + 1 ∧ exponent = floorLog 10 x.toRat - digits + 1 := by
  have hvalue := toRat_pos hpos
  unfold onGrid? at h
  dsimp only at h
  generalize hgrid : floorLog 10 x.toRat - (digits : Int) + 1 = grid at h
  have hstep : (0 : Rat) < (10 : Rat) ^ grid := Rat.zpow_pos (by norm_num)
  have hnearest : roundHalfEven (x.toRat / (10 : Rat) ^ grid) ≤ ((10 ^ digits : Nat) : Int) := by
    apply roundHalfEven_le
    rw [div_le_iff₀ hstep]
    calc x.toRat ≤ ((10 : Nat) : Rat) ^ (floorLog 10 x.toRat + 1) :=
          (lt_pow_floorLog (by decide) hvalue).le
      _ = (10 : Rat) ^ ((digits : Int) + grid) := by congr 1; omega
      _ = (((10 ^ digits : Nat) : Int) : Rat) * (10 : Rat) ^ grid := by
        rw [zpow_add₀ (by norm_num), zpow_natCast]
        norm_num
  generalize roundHalfEven (x.toRat / (10 : Rat) ^ grid) = nearest at h hnearest
  -- the other neighbour is one step away
  obtain ⟨other, hother⟩ : ∃ other, other =
      if (nearest : Rat) ≤ x.toRat / (10 : Rat) ^ grid then nearest + 1 else nearest - 1 := ⟨_, rfl⟩
  rw [← hother] at h
  have hstepped : other ≤ nearest + 1 := by
    rw [hother]
    split_ifs <;> omega
  simp only [Bool.and_eq_true, decide_eq_true_eq] at h
  split_ifs at h with hhit hhit
  · cases h
    exact ⟨by omega, by omega, rfl⟩
  · cases h
    exact ⟨by omega, by omega, rfl⟩

/-- The digits that are found, if any, are of a length that was tried. -/
theorem shortestFrom_eq (x : Binary64) (digits more : Nat) :
    x.shortestFrom digits more = (0, 0) ∨
      ∃ tried ≤ digits + more, digits ≤ tried ∧
        x.onGrid? tried = some (x.shortestFrom digits more) := by
  induction more generalizing digits with
  | zero =>
      unfold shortestFrom
      cases hgrid : x.onGrid? digits with
      | none => exact Or.inl rfl
      | some hit => exact Or.inr ⟨digits, Nat.le_refl _, Nat.le_refl _, hgrid⟩
  | succ more ih =>
      unfold shortestFrom
      cases hgrid : x.onGrid? digits with
      | some hit => exact Or.inr ⟨digits, Nat.le_add_right _ _, Nat.le_refl _, hgrid⟩
      | none =>
          rcases ih (digits + 1) with hzero | ⟨tried, hle, hge, hhit⟩
          · exact Or.inl hzero
          · exact Or.inr ⟨tried, by omega, by omega, hhit⟩

/-- The digits of a positive number and the power of ten that they count. -/
theorem InRange.shortest_bounds (hx : x.InRange) (hpos : 0 < x.significand) :
    x.shortest = (0, 0) ∨
      0 < x.shortest.1 ∧ x.shortest.1 < 10 ^ 18 ∧
        -1090 ≤ x.shortest.2 ∧ x.shortest.2 ≤ 1023 := by
  unfold shortest
  rcases shortestFrom_eq x 1 16 with hzero | ⟨tried, hle, hge, hhit⟩
  · exact Or.inl hzero
  · generalize x.shortestFrom 1 16 = hit at hhit ⊢
    obtain ⟨hn, hbound, hexponent⟩ := onGrid?_bounds hpos hhit
    obtain ⟨hlower, hupper⟩ := hx.log_bounds hpos
    have hpow : 10 ^ tried ≤ 10 ^ 17 := Nat.pow_le_pow_right (by decide) hle
    exact Or.inr ⟨hn, by omega, by omega, by omega⟩

end Binary64

end DesignTokens
