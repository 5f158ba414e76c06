import DesignTokens.Proofs.Decimal.Reader
import DesignTokens.Proofs.Expression.Reference

set_option autoImplicit false

/-! # Number literals

A value that is one number literal is cut and read three times: as a run of term characters, as
digits, a point and a unit, and as a decimal. `parse_literal` says what comes out. A number with
at most 28 decimal places whose digits make less than `2 ^ 96` is read exactly; a literal whose
whole part alone makes `2 ^ 96` or more is kept as text.
-/

namespace DesignTokens

section

variable {run : List Char}

/-- A run of term characters is one term. -/
theorem Expression.atomsOf_run (hne : run ≠ []) (hrun : ∀ c ∈ run, isTermChar c = true) :
    Expression.atomsOf run = [.ofTerm run] := by
  have hsplit : splitTerm? run = some (run, []) := by
    have hend : ∀ c ∈ ([] : List Char).head?, isTermChar c = false := fun c hc => by cases hc
    simpa using splitTerm?_run hne hrun hend
  rw [Expression.atomsOf, scan, hsplit]
  simp [scanRest, Piece.atoms]

/-- A value that is a run of term characters is read as one atom. -/
theorem Expression.parse_run (hne : run ≠ []) (hrun : ∀ c ∈ run, isTermChar c = true) :
    Expression.parse (String.ofList run) =
      .ok ⟨String.ofList run, [.ofTerm run], !(Atom.ofTerm run).isVerbatim⟩ := by
  have hchars : ∀ c ∈ (String.ofList run).toList, isTermChar c = true := by
    rwa [String.toList_ofList]
  have hparenthesis : '(' ∉ (String.ofList run).toList := fun hin =>
    ne_parenthesis_of_isTermChar (hchars '(' hin) rfl
  have hblanks : stripBlanks (String.ofList run) = String.ofList run :=
    stripBlanks_eq_self fun c hc => isBlank_of_isTermChar (hchars c hc)
  rw [Expression.parse_of_notMem hparenthesis, hblanks, String.toList_ofList,
    Expression.atomsOf_run hne hrun]
  simp [Expression.isFormula]

end

variable {whole places text unit : List Char}

/-- A literal is kept as text if its digits make no decimal. -/
theorem Atom.ofTerm_of_unread (hwhole : ∀ c ∈ whole, isDecimalDigit c = true)
    (hplaces : ∀ c ∈ places, isDecimalDigit c = true) (hunit : ∀ c ∈ unit, isUnitChar c = true)
    (htext : NumberWord whole places text) (hvalue : Decimal.read? whole places = none) :
    ofTerm (text ++ unit) = .verbatim (String.ofList (text ++ unit)) := by
  have hbrace : isReferenceTerm (text ++ unit) = false :=
    isReferenceTerm_of_isTermChar (htext.isTermChar hwhole hplaces hunit)
  rw [ofTerm, hbrace, ofNumber?_of_numberWord hwhole hplaces hunit htext, hvalue]
  rfl

/-- **Number literals are read exactly.** Let a literal be written `D`, `D.`, `D.D` or `.D`, with
any number of digits, and let letters and percent signs follow as its unit. If its digits make
less than `2 ^ 96` and at most 28 of them come after the point, reading it gives one number: of
exactly the value that is written, with the unit, and with the literal as its text. If the digits
before the point make `2 ^ 96` or more, it gives the literal as verbatim text. Only the first is
numeric. -/
theorem parse_literal (hwhole : ∀ c ∈ whole, isDecimalDigit c = true)
    (hplaces : ∀ c ∈ places, isDecimalDigit c = true) (hunit : ∀ c ∈ unit, isUnitChar c = true)
    (htext : NumberWord whole places text) :
    (digitsValue (whole ++ places) < 2 ^ 96 → places.length ≤ 28 →
      ∃ value : Decimal,
        Expression.parse (String.ofList (text ++ unit)) = .ok
          { source := String.ofList (text ++ unit)
            atoms := [.number value (String.ofList unit) (String.ofList (text ++ unit))]
            numeric := true } ∧
        value.toRat = (digitsValue (whole ++ places) : Rat) / 10 ^ places.length) ∧
    (2 ^ 96 ≤ digitsValue whole →
      Expression.parse (String.ofList (text ++ unit)) = .ok
        { source := String.ofList (text ++ unit)
          atoms := [.verbatim (String.ofList (text ++ unit))]
          numeric := false }) := by
  have hne : text ++ unit ≠ [] := List.append_ne_nil_of_left_ne_nil htext.ne_nil unit
  rw [Expression.parse_run hne (htext.isTermChar hwhole hplaces hunit)]
  constructor
  · intro hdigits hlength
    obtain ⟨value, hread, hvalue⟩ := Decimal.exists_read?_of_fits hwhole hplaces hdigits hlength
    refine ⟨value, ?_, hvalue⟩
    rw [Atom.ofTerm_of_termWord (.number hwhole hplaces htext hread hunit)]
    rfl
  · intro hlarge
    have hbound : ¬ digitsValue whole < coefficientBound := Nat.not_lt.mpr hlarge
    have hread : Decimal.read? whole places = none := by
      rw [Decimal.read?_of_isDecimalDigit hwhole hplaces, if_neg hbound]
    rw [Atom.ofTerm_of_unread hwhole hplaces hunit htext hread]
    rfl

/-- `007.50px` is the number `7.50`, and `2 ^ 96` with a point is one too many. -/
theorem parse_literal_limits :
    (digitsValue "00750".toList < 2 ^ 96 ∧ "50".toList.length ≤ 28 ∧
      ∃ value : Decimal,
        Expression.parse "007.50px" = .ok ⟨"007.50px", [.number value "px" "007.50px"], true⟩ ∧
        value.toRat = 750 / 100) ∧
    2 ^ 96 ≤ digitsValue "79228162514264337593543950336".toList ∧
      Expression.parse "79228162514264337593543950336.%" =
        .ok ⟨"79228162514264337593543950336.%",
          [.verbatim "79228162514264337593543950336.%"], false⟩ := by
  have hdigits : ∀ text : String, text.toList.all isDecimalDigit = true →
      ∀ c ∈ text.toList, isDecimalDigit c = true := fun text => List.all_eq_true.mp
  have hunit : ∀ unit : String, unit.toList.all isUnitChar = true →
      ∀ c ∈ unit.toList, isUnitChar c = true := fun unit => List.all_eq_true.mp
  refine ⟨⟨by decide, by decide, ?_⟩, by decide +kernel, ?_⟩
  · obtain ⟨value, hparse, hvalue⟩ := (parse_literal (hdigits "007" (by decide))
      (hdigits "50" (by decide)) (hunit "px" (by decide))
      (.mixed (by decide) (by decide))).1 (by decide) (by decide)
    have hmade : digitsValue ("007".toList ++ "50".toList) = 750 := by decide
    have hlength : "50".toList.length = 2 := by decide
    rw [hmade, hlength] at hvalue
    exact ⟨value, hparse, by rw [hvalue]; norm_num⟩
  · exact (parse_literal (hdigits "79228162514264337593543950336" (by decide))
      (hdigits "" (by decide)) (hunit "%" (by decide)) (.pointed (by decide))).2 (by decide +kernel)

end DesignTokens
