import DesignTokens.Proofs.Decimal.Normalize
import DesignTokens.Proofs.Decimal.Reader

set_option autoImplicit false

/-! # Written decimals

`Decimal.text` writes the digits of the coefficient with a point before the last `scale` of
them. The digits before the point and those behind it make the decimal without its sign
again (`read?_digits`). A decimal in normal form has no zero at the end of its places, and
zero has no sign, so its text is in plain notation (`isPlain_text`).
-/

namespace DesignTokens

/-- The places behind a point; a number without places has no point either. -/
def behindPoint (places : List Char) : List Char := if places = [] then [] else '.' :: places

/-- A text is a number in plain notation: a minus sign or none, one or more digits, and
behind a point further digits, if any. The last place is not `0`, and a number with a minus
sign is not zero. -/
structure IsPlain (text : List Char) (negative : Bool) (whole places : List Char) : Prop where
  text_eq : text = (if negative then ['-'] else []) ++ whole ++ behindPoint places
  whole_ne_nil : whole ≠ []
  whole_digits : ∀ c ∈ whole, isDecimalDigit c = true
  places_digits : ∀ c ∈ places, isDecimalDigit c = true
  last_ne_zero : places.getLast? ≠ some '0'
  nonzero : negative = true → 0 < digitsValue (whole ++ places)

theorem NumberWord.of_digits {whole places : List Char} (hwhole : whole ≠ []) :
    NumberWord whole places (whole ++ behindPoint places) := by
  rw [behindPoint]
  split
  · rename_i hnil
    subst hnil
    rw [List.append_nil]
    exact .integer hwhole
  · rename_i hne
    exact .mixed hwhole hne

theorem digitsValue_replicate_zero (k : Nat) : digitsValue (List.replicate k '0') = 0 := by
  induction k with
  | zero => rfl
  | succ k ih =>
      have hzero : digitValue '0' = 0 := by decide
      rw [List.replicate_succ, digitsValue_cons, ih, hzero, Nat.zero_mul]

/-- A number whose last digit is zero is a multiple of ten. -/
theorem digitsValue_mod_ten {digits : List Char} (h : digits.getLast? = some '0') :
    digitsValue digits % 10 = 0 := by
  have hzero : digitsValue ['0'] = 0 := by decide
  obtain ⟨front, rfl⟩ := List.getLast?_eq_some_iff.mp h
  rw [digitsValue_append, hzero, List.length_singleton]
  omega

namespace Decimal

/-! ## Digits -/

/-- The digits of a decimal: those of its coefficient, and zeros in front for the places that
these do not reach. -/
def digits (d : Decimal) : List Char :=
  (Nat.toDigits 10 d.coefficient.natAbs).leftpad (d.scale + 1) '0'

/-- The digits before the point. -/
def whole (d : Decimal) : List Char := d.digits.take (d.digits.length - d.scale)

/-- The digits behind the point. -/
def places (d : Decimal) : List Char := d.digits.drop (d.digits.length - d.scale)

/-- The digits with the point. -/
def unsignedText (d : Decimal) : List Char := d.whole ++ behindPoint d.places

/-- The decimal without its sign. -/
def magnitude (d : Decimal) : Decimal :=
  { d with
    coefficient := d.coefficient.natAbs
    coefficient_lt := by rw [Int.natAbs_natCast]; exact d.coefficient_lt }

variable {d : Decimal}

theorem neg_magnitude (hnegative : d.coefficient < 0) : d.magnitude.neg = d := by
  obtain ⟨coefficient, scale, hc, hs⟩ := d
  have habs : -(coefficient.natAbs : Int) = coefficient := by
    simp only at hnegative
    omega
  simp only [magnitude, neg, habs]

theorem magnitude_of_nonneg (hnonneg : ¬d.coefficient < 0) : d.magnitude = d := by
  obtain ⟨coefficient, scale, hc, hs⟩ := d
  have habs : (coefficient.natAbs : Int) = coefficient := by
    simp only at hnonneg
    omega
  simp only [magnitude, habs]

theorem scale_lt_length_digits (d : Decimal) : d.scale < d.digits.length := by
  rw [digits, List.length_leftpad]
  omega

theorem isDecimalDigit_of_mem_digits {c : Char} (h : c ∈ d.digits) : isDecimalDigit c = true := by
  rw [digits, List.leftpad, List.mem_append] at h
  rcases h with hpadding | hdigit
  · rw [List.eq_of_mem_replicate hpadding]
    decide
  · exact isDecimalDigit_of_mem_toDigits hdigit

theorem digitsValue_digits (d : Decimal) : digitsValue d.digits = d.coefficient.natAbs := by
  rw [digits, List.leftpad, digitsValue_append, digitsValue_replicate_zero, Nat.zero_mul,
    Nat.zero_add, digitsValue_toDigits]

theorem whole_append_places (d : Decimal) : d.whole ++ d.places = d.digits :=
  List.take_append_drop _ _

theorem length_places (d : Decimal) : d.places.length = d.scale := by
  have hlt := scale_lt_length_digits d
  rw [places, List.length_drop]
  omega

theorem places_eq_nil_iff : d.places = [] ↔ d.scale = 0 := by
  rw [← List.length_eq_zero_iff, length_places]

theorem whole_ne_nil (d : Decimal) : d.whole ≠ [] := by
  have hlt := scale_lt_length_digits d
  rw [← List.length_pos_iff, whole, List.length_take]
  omega

theorem isDecimalDigit_of_mem_whole {c : Char} (h : c ∈ d.whole) : isDecimalDigit c = true :=
  isDecimalDigit_of_mem_digits (List.mem_of_mem_take h)

theorem isDecimalDigit_of_mem_places {c : Char} (h : c ∈ d.places) : isDecimalDigit c = true :=
  isDecimalDigit_of_mem_digits (List.mem_of_mem_drop h)

theorem toList_text (d : Decimal) :
    d.text.toList = (if d.coefficient < 0 then ['-'] else []) ++ d.unsignedText := by
  have hpoint : behindPoint d.places = if d.scale = 0 then [] else '.' :: d.places := by
    rw [behindPoint]
    simp only [places_eq_nil_iff]
  rw [text, String.toList_ofList, unsignedText, hpoint, List.append_assoc]
  rfl

/-- The written digits are read as the decimal without its sign. -/
theorem read?_digits (d : Decimal) : read? d.whole d.places = some d.magnitude := by
  have hvalue : digitsValue (d.whole ++ d.places) = d.coefficient.natAbs := by
    rw [whole_append_places, digitsValue_digits]
  have hfits : digitsValue (d.whole ++ d.places) < coefficientBound := by
    rw [hvalue]
    exact d.coefficient_lt
  have hscale : d.places.length ≤ maxScale := by
    rw [length_places]
    exact d.scale_le
  rw [read?_of_fits (fun _ => isDecimalDigit_of_mem_whole) (fun _ => isDecimalDigit_of_mem_places)
    hfits hscale, ofParts?, dif_pos ⟨hfits, hscale⟩]
  simp only [hvalue, length_places]
  rfl

/-! ## Normal forms -/

/-- No decimal place could be given up: there is none, or the last one is not zero. -/
def IsReduced (d : Decimal) : Prop := d.scale = 0 ∨ d.coefficient % 10 ≠ 0

theorem isReduced_normalizeFrom (c : Int) (scale : Nat) (hc : c.natAbs < coefficientBound)
    (hs : scale ≤ maxScale) : (normalizeFrom c scale hc hs).IsReduced := by
  induction scale generalizing c with
  | zero => exact Or.inl rfl
  | succ scale ih =>
      rw [normalizeFrom]
      split_ifs with hzero
      · exact ih _ _ _
      · exact Or.inr hzero

theorem isReduced_normalize (d : Decimal) : d.normalize.IsReduced :=
  isReduced_normalizeFrom d.coefficient d.scale d.coefficient_lt d.scale_le

/-- The last place of a decimal in normal form is not zero. -/
theorem IsReduced.getLast?_places (h : d.IsReduced) : d.places.getLast? ≠ some '0' := by
  intro hlast
  have hdigits : d.digits.getLast? = some '0' := by
    rw [← whole_append_places, List.getLast?_append, hlast]
    rfl
  have hten : d.coefficient.natAbs % 10 = 0 := by
    rw [← digitsValue_digits]
    exact digitsValue_mod_ten hdigits
  rcases h with hscale | hne
  · rw [places_eq_nil_iff.mpr hscale] at hlast
    cases hlast
  · omega

/-- A decimal in normal form is written in plain notation. -/
theorem IsReduced.isPlain_text (h : d.IsReduced) :
    IsPlain d.text.toList (d.coefficient < 0) d.whole d.places where
  text_eq := by simp only [toList_text, unsignedText, decide_eq_true_eq, List.append_assoc]
  whole_ne_nil := whole_ne_nil d
  whole_digits _ := isDecimalDigit_of_mem_whole
  places_digits _ := isDecimalDigit_of_mem_places
  last_ne_zero := h.getLast?_places
  nonzero hnegative := by
    rw [decide_eq_true_eq] at hnegative
    rw [whole_append_places, digitsValue_digits]
    omega

end Decimal

end DesignTokens
