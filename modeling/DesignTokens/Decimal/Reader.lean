import DesignTokens.Decimal.Basic
import DesignTokens.Text.Word

set_option autoImplicit false

/-! # Reading decimal literals

A literal is written with the digits `0` to `9`; a digit of another script makes it none,
wherever it stands. Its whole part must fit a coefficient. Of its decimal places as many are
taken as fit; the first one that does not fit rounds the number, a half going up, and the
digits behind that one make no difference. `Decimal.read?` reads a literal that is already
split at its point, `Decimal.parse?` a signed text.
-/

namespace DesignTokens

/-- The number that a list of decimal digits denotes. -/
def digitsValue (digits : List Char) : Nat :=
  digits.foldl (fun value c => 10 * value + digitValue c) 0

namespace Decimal

/-- A coefficient at a scale, if both are within their bounds. -/
def ofParts? (coefficient : Nat) (scale : Nat) : Option Decimal :=
  if h : coefficient < coefficientBound ∧ scale ≤ maxScale then
    some ⟨coefficient, scale, by simpa using h.1, h.2⟩
  else
    none

/-- Rounds by the first place that was not taken. A coefficient that reaches the bound gives
up its last place; without places there is no such decimal. -/
def roundBy? (coefficient scale place : Nat) : Option Decimal :=
  if place < 5 then
    ofParts? coefficient scale
  else if coefficient + 1 < coefficientBound then
    ofParts? (coefficient + 1) scale
  else
    match scale with
    | 0 => none
    | scale + 1 => ofParts? ((coefficient + 1 + 4) / 10) scale

/-- Takes decimal places as long as the scale and the coefficient allow. -/
def readPlaces? (coefficient scale : Nat) : List Char → Option Decimal
  | [] => ofParts? coefficient scale
  | c :: places =>
    let next := 10 * coefficient + digitValue c
    if scale < maxScale ∧ next < coefficientBound then
      readPlaces? next (scale + 1) places
    else
      roundBy? coefficient scale (digitValue c)

/-- The decimal with the given digits before and after its point. Every one of them must be an
ASCII digit, those behind the place that rounds included. -/
def read? (whole places : List Char) : Option Decimal :=
  if (whole ++ places).all isDecimalDigit && digitsValue whole < coefficientBound then
    readPlaces? (digitsValue whole) 0 places
  else
    none

section

variable {whole places : List Char}

/-- Only ASCII digits are read. -/
theorem isDecimalDigit_of_read? {d : Decimal} (h : read? whole places = some d) :
    (∀ c ∈ whole, isDecimalDigit c = true) ∧ ∀ c ∈ places, isDecimalDigit c = true := by
  unfold read? at h
  split at h
  · rename_i hdigits
    simp only [Bool.and_eq_true, List.all_eq_true] at hdigits
    exact List.forall_mem_append.mp hdigits.1
  · cases h

/-- ASCII digits are read if those of the whole part fit a coefficient. -/
theorem read?_of_isDecimalDigit (hwhole : ∀ c ∈ whole, isDecimalDigit c = true)
    (hplaces : ∀ c ∈ places, isDecimalDigit c = true) :
    read? whole places =
      if digitsValue whole < coefficientBound then readPlaces? (digitsValue whole) 0 places
      else none := by
  have hdigits : (whole ++ places).all isDecimalDigit = true :=
    List.all_eq_true.mpr (List.forall_mem_append.mpr ⟨hwhole, hplaces⟩)
  simp [read?, hdigits]

end

/-- Reads digits with an optional point; at least one digit is needed. -/
def parseUnsigned? (text : List Char) : Option Decimal :=
  let whole := text.takeWhile isDecimalDigit
  match text.dropWhile isDecimalDigit with
  | [] => if whole.isEmpty then none else read? whole []
  | '.' :: places =>
    if whole.isEmpty && places.isEmpty then none else read? whole places
  | _ => none

/-- Reads a decimal with an optional sign. -/
def parse? (text : String) : Option Decimal :=
  match text.toList with
  | '-' :: rest => (parseUnsigned? rest).map neg
  | '+' :: rest => parseUnsigned? rest
  | rest => parseUnsigned? rest

end Decimal

end DesignTokens
