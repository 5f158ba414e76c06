import DesignTokens.Proofs.Decimal.Rounding

set_option autoImplicit false

/-! # The normal form of a decimal

`Decimal.normalize` keeps the value (`toRat_normalize`), and two decimals of one value have
one normal form (`normalize_eq_of_toRat_eq`).
-/

namespace DesignTokens

namespace Decimal

theorem toRat_normalizeFrom (c : Int) (scale : Nat) (hc : c.natAbs < coefficientBound)
    (hs : scale ≤ maxScale) : (normalizeFrom c scale hc hs).toRat = (c : Rat) / 10 ^ scale := by
  induction scale generalizing c with
  | zero => rfl
  | succ scale ih =>
      rw [normalizeFrom]
      split_ifs with hzero
      · have hten : (c : Rat) = ((c / 10 : Int) : Rat) * 10 := by
          have hmul : c / 10 * 10 = c := Int.ediv_mul_cancel (Int.dvd_of_emod_eq_zero hzero)
          exact_mod_cast hmul.symm
        calc (normalizeFrom (c / 10) scale _ _).toRat
            = ((c / 10 : Int) : Rat) / 10 ^ scale := ih _ _ _
          _ = ((c / 10 : Int) : Rat) * 10 / (10 ^ scale * 10) :=
            (mul_div_mul_right _ _ (by norm_num)).symm
          _ = (c : Rat) / 10 ^ (scale + 1) := by rw [← hten, pow_succ]
      · rfl

theorem toRat_normalize (d : Decimal) : d.normalize.toRat = d.toRat :=
  toRat_normalizeFrom d.coefficient d.scale d.coefficient_lt d.scale_le

/-- Zeros at the end of the decimal places are dropped. -/
theorem normalizeFrom_mul_pow (c : Int) (scale k : Nat)
    (hc : (c * 10 ^ k).natAbs < coefficientBound) (hs : scale + k ≤ maxScale)
    (hc' : c.natAbs < coefficientBound) :
    normalizeFrom (c * 10 ^ k) (scale + k) hc hs = normalizeFrom c scale hc' (by omega) := by
  induction k with
  | zero => simp
  | succ k ih =>
      have hsplit : c * 10 ^ (k + 1) = c * 10 ^ k * 10 := by
        rw [pow_succ, mul_assoc]
      have hmod : c * 10 ^ (k + 1) % 10 = 0 := by omega
      have hdiv : c * 10 ^ (k + 1) / 10 = c * 10 ^ k := by omega
      show normalizeFrom (c * 10 ^ (k + 1)) (scale + k + 1) hc hs = _
      rw [normalizeFrom, if_pos hmod]
      simp only [hdiv]
      exact ih (by omega) (by omega)

private theorem normalize_eq_of_le {d d' : Decimal} (h : d.toRat = d'.toRat)
    (hle : d.scale ≤ d'.scale) : d.normalize = d'.normalize := by
  have hcoefficient : d'.coefficient = d.coefficient * 10 ^ (d'.scale - d.scale) := by
    have hleft := toRat_mul_pow hle
    have hright := toRat_mul_pow (d := d') (Nat.le_refl d'.scale)
    rw [h, hright, Nat.sub_self, pow_zero, mul_one] at hleft
    exact_mod_cast hleft
  have hscale : d'.scale = d.scale + (d'.scale - d.scale) := by omega
  -- the second decimal is the first with zeros added at the end
  obtain ⟨c', s', hc', hs'⟩ := d'
  simp only at hcoefficient hscale hle
  generalize s' - d.scale = k at hcoefficient hscale
  subst hcoefficient hscale
  exact (normalizeFrom_mul_pow d.coefficient d.scale k hc' hs' d.coefficient_lt).symm

theorem normalize_eq_of_toRat_eq {d d' : Decimal} (h : d.toRat = d'.toRat) :
    d.normalize = d'.normalize := by
  rcases Nat.le_total d.scale d'.scale with hle | hle
  · exact normalize_eq_of_le h hle
  · exact (normalize_eq_of_le h.symm hle).symm

theorem normalize_normalize (d : Decimal) : d.normalize.normalize = d.normalize :=
  normalize_eq_of_toRat_eq (toRat_normalize d)

end Decimal

end DesignTokens
