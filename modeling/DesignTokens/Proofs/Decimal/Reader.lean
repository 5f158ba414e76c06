import DesignTokens.Decimal.Reader
import DesignTokens.Proofs.Decimal.Rounding
import DesignTokens.Proofs.Expression.Grammar
import Mathlib.Data.List.Induction

set_option autoImplicit false

/-! # Literals that fit are read exactly

`Decimal.read?` rounds only where a place does not fit. If the digits of a literal make a
coefficient within its bound and its places are not too many, all of them are taken
(`read?_of_fits`), and the decimal has the value that the literal denotes
(`exists_read?_of_fits`).
-/

namespace DesignTokens

/-! ## The value of digits -/

theorem digitsValue_append (digits places : List Char) :
    digitsValue (digits ++ places) =
      digitsValue digits * 10 ^ places.length + digitsValue places := by
  induction places using List.reverseRecOn with
  | nil => simp [digitsValue]
  | append_singleton places c ih =>
      have hlast : ∀ l : List Char, digitsValue (l ++ [c]) = 10 * digitsValue l + digitValue c := by
        intro l
        simp [digitsValue]
      rw [← List.append_assoc, hlast, hlast, ih, List.length_append, List.length_singleton, pow_succ]
      ring

theorem digitsValue_cons (c : Char) (digits : List Char) :
    digitsValue (c :: digits) = digitValue c * 10 ^ digits.length + digitsValue digits := by
  have hone : digitsValue [c] = digitValue c := by simp [digitsValue]
  have happend := digitsValue_append [c] digits
  rwa [hone] at happend

theorem digitValue_lt {c : Char} (h : isDecimalDigit c = true) : digitValue c < 10 := by
  have hrange := toNat_of_isDecimalDigit h
  have hzero : '0'.toNat = 48 := by decide
  unfold digitValue
  omega

/-- Digits make a number below the power of ten of their count. -/
theorem digitsValue_lt {digits : List Char} (h : ∀ c ∈ digits, isDecimalDigit c = true) :
    digitsValue digits < 10 ^ digits.length := by
  induction digits with
  | nil => decide
  | cons c digits ih =>
      have hfirst := digitValue_lt (h c List.mem_cons_self)
      have hrest := ih fun d hd => h d (List.mem_cons_of_mem c hd)
      calc digitsValue (c :: digits)
          = digitValue c * 10 ^ digits.length + digitsValue digits := digitsValue_cons c digits
        _ < digitValue c * 10 ^ digits.length + 10 ^ digits.length := Nat.add_lt_add_left hrest _
        _ = (digitValue c + 1) * 10 ^ digits.length := by ring
        _ ≤ 10 * 10 ^ digits.length := Nat.mul_le_mul_right _ hfirst
        _ = 10 ^ (c :: digits).length := by rw [List.length_cons, pow_succ']

theorem isDecimalDigit_of_mem_toDigits {n : Nat} {c : Char} (h : c ∈ Nat.toDigits 10 n) :
    isDecimalDigit c = true := by
  have hdigit := Nat.isDigit_of_mem_toDigits (by decide) (by decide) h
  simp only [Char.isDigit, Bool.and_eq_true, decide_eq_true_eq] at hdigit
  simp only [isDecimalDigit, Bool.and_eq_true, decide_eq_true_eq]
  exact hdigit

theorem digitsValue_toDigits (n : Nat) : digitsValue (Nat.toDigits 10 n) = n :=
  Nat.ofDigitChars_toDigits (by decide) (by decide)

/-- A positive number is written without a leading zero. -/
theorem head?_toDigits_ne_zero {n : Nat} (hn : 0 < n) : (Nat.toDigits 10 n).head? ≠ some '0' := by
  intro hhead
  obtain ⟨rest, hdigits⟩ : ∃ rest, Nat.toDigits 10 n = '0' :: rest := by
    cases hcase : Nat.toDigits 10 n with
    | nil => rw [hcase] at hhead; cases hhead
    | cons c rest => rw [hcase] at hhead; cases hhead; exact ⟨rest, rfl⟩
  have hall : ∀ c ∈ rest, isDecimalDigit c = true := fun c hc =>
    isDecimalDigit_of_mem_toDigits (n := n) (by rw [hdigits]; exact List.mem_cons_of_mem _ hc)
  have hvalue : n = digitsValue rest := by
    have hzero : digitValue '0' = 0 := by decide
    rw [← digitsValue_toDigits n, hdigits, digitsValue_cons, hzero, Nat.zero_mul, Nat.zero_add]
  have hlength : (Nat.toDigits 10 n).length = rest.length + 1 := by rw [hdigits, List.length_cons]
  -- the rest would already be long enough to write the number
  rcases Nat.eq_zero_or_pos rest.length with hnil | hpos
  · rw [List.length_eq_zero_iff.mp hnil] at hvalue
    exact absurd hvalue hn.ne'
  · have hshort : (Nat.toDigits 10 n).length ≤ rest.length := by
      rw [Nat.length_toDigits_le_iff (by decide) hpos, hvalue]
      exact digitsValue_lt hall
    omega

/-! ## Reading -/

namespace Decimal

/-- Places are taken while coefficient and scale fit. -/
theorem readPlaces?_of_fits {coefficient scale : Nat} {places : List Char}
    (hvalue : coefficient * 10 ^ places.length + digitsValue places < coefficientBound)
    (hscale : scale + places.length ≤ maxScale) :
    readPlaces? coefficient scale places =
      ofParts? (coefficient * 10 ^ places.length + digitsValue places)
        (scale + places.length) := by
  induction places generalizing coefficient scale with
  | nil => simp [readPlaces?, digitsValue]
  | cons c places ih =>
      rw [List.length_cons] at hscale
      have hsplit : coefficient * 10 ^ (c :: places).length + digitsValue (c :: places) =
          (10 * coefficient + digitValue c) * 10 ^ places.length + digitsValue places := by
        rw [digitsValue_cons, List.length_cons, pow_succ]
        ring
      rw [hsplit] at hvalue ⊢
      have hpow : 0 < 10 ^ places.length := Nat.pow_pos (by decide)
      have hnext : 10 * coefficient + digitValue c < coefficientBound := by
        have hle := Nat.le_mul_of_pos_right (10 * coefficient + digitValue c) hpow
        omega
      have htaken : scale < maxScale ∧ 10 * coefficient + digitValue c < coefficientBound :=
        ⟨by omega, hnext⟩
      rw [readPlaces?, if_pos htaken, ih hvalue (by omega), List.length_cons]
      congr 1
      omega

/-- A literal that fits gives up none of its digits. -/
theorem read?_of_fits {whole places : List Char} (hwhole : ∀ c ∈ whole, isDecimalDigit c = true)
    (hplaces : ∀ c ∈ places, isDecimalDigit c = true)
    (hvalue : digitsValue (whole ++ places) < coefficientBound)
    (hscale : places.length ≤ maxScale) :
    read? whole places = ofParts? (digitsValue (whole ++ places)) places.length := by
  rw [digitsValue_append] at hvalue ⊢
  have hbound : digitsValue whole < coefficientBound := by
    have hle := Nat.le_mul_of_pos_right (digitsValue whole)
      (Nat.pow_pos (n := places.length) (by decide : 0 < 10))
    omega
  rw [read?_of_isDecimalDigit hwhole hplaces, if_pos hbound,
    readPlaces?_of_fits hvalue (by omega), Nat.zero_add]

theorem exists_ofParts? {coefficient scale : Nat} (hcoefficient : coefficient < coefficientBound)
    (hscale : scale ≤ maxScale) :
    ∃ d, ofParts? coefficient scale = some d ∧ d.toRat = (coefficient : Rat) / 10 ^ scale := by
  rw [ofParts?, dif_pos ⟨hcoefficient, hscale⟩]
  exact ⟨_, rfl, rfl⟩

/-- The decimal of a literal that fits has the value that the literal denotes. -/
theorem exists_read?_of_fits {whole places : List Char}
    (hwhole : ∀ c ∈ whole, isDecimalDigit c = true)
    (hplaces : ∀ c ∈ places, isDecimalDigit c = true)
    (hvalue : digitsValue (whole ++ places) < coefficientBound)
    (hscale : places.length ≤ maxScale) :
    ∃ d, read? whole places = some d ∧
      d.toRat = (digitsValue (whole ++ places) : Rat) / 10 ^ places.length := by
  rw [read?_of_fits hwhole hplaces hvalue hscale]
  exact exists_ofParts? hvalue hscale

end Decimal

end DesignTokens
