import DesignTokens.Json.Number
import DesignTokens.Proofs.Number.Binary64

set_option autoImplicit false

/-! # The numbers of documents

Reading a literal gives an integer of 64 bits or a double precision number
(`inRange_of_ofLiteral?`), because every step of reading rounds to the format or fails.
-/

namespace DesignTokens

namespace JsonNumber

/-- A number that a document can hold. -/
def InRange : JsonNumber → Prop
  | integer value => value.natAbs < wordBound
  | float _ magnitude => magnitude.InRange

theorem takeDigits_lt {significand : Nat} (h : significand < wordBound) (digits : List Char) :
    (takeDigits significand digits).1 < wordBound := by
  induction digits generalizing significand with
  | nil => exact h
  | cons c digits ih =>
      rw [takeDigits]
      split
      · rename_i hfits
        exact ih hfits
      · exact h

theorem powerOfTen_nonneg (exponent : Nat) : 0 ≤ powerOfTen exponent := by
  unfold powerOfTen
  cases Binary64.nearest? ((10 : Rat) ^ exponent) with
  | none => exact le_refl _
  | some x => exact x.toRat_nonneg

theorem inRange_of_multiplyByTens {x y : Binary64} {exponent : Nat} (hx : x.InRange)
    (h : multiplyByTens x exponent = some y) : y.InRange := by
  unfold multiplyByTens at h
  split_ifs at h
  · exact Binary64.inRange_of_nearest? (mul_nonneg x.toRat_nonneg (powerOfTen_nonneg _)) h
  · cases h
    exact hx

theorem inRange_of_divideByTens {x y : Binary64} {exponent : Nat} (hx : x.InRange)
    (h : divideByTens x exponent = some y) : y.InRange := by
  fun_induction divideByTens x exponent with
  | case1 x exponent hle =>
      exact Binary64.inRange_of_nearest? (div_nonneg x.toRat_nonneg (powerOfTen_nonneg _)) h
  | case2 x exponent hle hzero =>
      cases h
      exact hx
  | case3 x exponent hle hzero part hpart ih =>
      have hquotient := div_nonneg x.toRat_nonneg (powerOfTen_nonneg maxTenExponent)
      exact ih (Binary64.inRange_of_nearest? hquotient hpart) h
  | case4 x exponent hle hzero hpart => cases h

theorem inRange_of_scale? {significand : Nat} {exponent : Int} {x : Binary64}
    (h : scale? significand exponent = some x) : x.InRange := by
  unfold scale? at h
  obtain ⟨start, hstart, hscaled⟩ := Option.bind_eq_some_iff.mp h
  have hx := Binary64.inRange_of_nearest? (Nat.cast_nonneg significand) hstart
  cases exponent with
  | ofNat n => exact inRange_of_multiplyByTens hx hscaled
  | negSucc n => exact inRange_of_divideByTens hx hscaled

theorem inRange_of_ofParts? {literal : Literal} {number : JsonNumber}
    (h : ofParts? literal = some number) : number.InRange := by
  have hbound := takeDigits_lt (by decide : 0 < wordBound) literal.whole
  unfold ofParts? at h
  split at h
  rename_i significand left htaken
  rw [htaken] at hbound
  split at h
  · -- an integer literal whose digits all fit
    have hsigned : signedBound < wordBound := by decide
    split_ifs at h with hpositive hfits
    · cases h
      show ((significand : Int)).natAbs < wordBound
      omega
    · cases h
      rw [Bool.and_eq_true, decide_eq_true_eq, decide_eq_true_eq] at hfits
      show (-(significand : Int)).natAbs < wordBound
      omega
    · obtain ⟨x, hx, hnumber⟩ := Option.bind_eq_some_iff.mp h
      cases hnumber
      exact inRange_of_scale? hx
  · obtain ⟨x, hx, hnumber⟩ := Option.bind_eq_some_iff.mp h
    cases hnumber
    exact inRange_of_scale? hx

/-- Every literal that is read denotes an integer of 64 bits or a double precision number. -/
theorem inRange_of_ofLiteral? {literal : List Char} {number : JsonNumber}
    (h : ofLiteral? literal = some number) : number.InRange := by
  obtain ⟨parts, -, hparts⟩ := Option.bind_eq_some_iff.mp h
  exact inRange_of_ofParts? hparts

end JsonNumber

end DesignTokens
