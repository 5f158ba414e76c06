import DesignTokens.Proofs.Decimal.Written
import DesignTokens.Proofs.Evaluation.Expansion
import DesignTokens.Proofs.Evaluation.Reference

set_option autoImplicit false

/-! # Displayed numbers

The number that an expression is worth is displayed as a formula that is worth the same
number. Two invariants of evaluation make this so: its numbers are in normal form, so that
their digits are the digits of the text and of nothing else (`normalize_of_evaluate`), and
its units are units of number atoms, wherever these stand behind references
(`isUnitText_of_evaluate`).

Such a number with its unit is a word of the grammar (`formulaWord_display`): one term, with
a minus sign in front if it is negative.
-/

namespace DesignTokens

/-- A text is a unit: one or more letters and percent signs. -/
structure IsUnitText (unit : String) : Prop where
  ne_empty : unit ≠ ""
  chars : ∀ c ∈ unit.toList, isUnitChar c = true

/-! ## Units come from number atoms -/

theorem TermWord.isUnitChar {term : List Char} {value : Decimal} {unit text : String}
    (h : TermWord term (.number value unit text)) : ∀ c ∈ unit.toList, isUnitChar c = true := by
  cases h with
  | number _ _ _ _ hunit =>
      rw [String.toList_ofList]
      exact hunit

/-- The units of an expression that was read are made of unit characters. -/
theorem Expression.isUnitChar_of_parse {text : String} {e : Expression} {value : Decimal}
    {unit source : String} (hparse : parse text = .ok e)
    (h : .number value unit source ∈ e.atoms) : ∀ c ∈ unit.toList, isUnitChar c = true := by
  have hof : ∀ term, .number value unit source = Atom.ofTerm term →
      ∀ c ∈ unit.toList, DesignTokens.isUnitChar c = true := by
    intro term hterm
    have hword : TermWord term (Atom.ofTerm term) := Atom.termWord_ofTerm (by rw [← hterm]; rfl)
    rw [← hterm] at hword
    exact hword.isUnitChar
  unfold parse at hparse
  split at hparse
  · cases hparse
  · cases hparse
    obtain ⟨piece, -, hpiece⟩ := List.mem_flatMap.mp h
    cases piece with
    | gap text => cases List.mem_singleton.mp hpiece
    | term op text =>
        cases op with
        | none => exact hof text (List.mem_singleton.mp hpiece)
        | some op =>
            rcases List.mem_cons.mp hpiece with hop | hpiece
            · cases hop
            · exact hof text (List.mem_singleton.mp hpiece)

/-- What holds of the atoms of an expression and of all raw values holds of its expansion. -/
theorem LookupTable.Expands.forall_mem {table : LookupTable} {P : Atom → Prop}
    (hstored : ∀ r raw e, table.get? r = some raw → Expression.parse raw = .ok e →
      ∀ atom ∈ e.atoms, P atom)
    {atoms leaves : List Atom} (h : table.Expands atoms leaves) (hatoms : ∀ atom ∈ atoms, P atom) :
    ∀ atom ∈ leaves, P atom := by
  induction h with
  | nil => exact hatoms
  | leaf _ _ ih =>
      obtain ⟨hfirst, hrest⟩ := List.forall_mem_cons.mp hatoms
      exact List.forall_mem_cons.mpr ⟨hfirst, ih hrest⟩
  | @reference r raw e _ _ _ hget hparse _ _ ihInner ihRest =>
      intro atom hmem
      rcases List.mem_append.mp hmem with hmem | hmem
      · exact ihInner (hstored r raw e hget hparse) atom hmem
      · exact ihRest (List.forall_mem_cons.mp hatoms).2 atom hmem

section

variable {table : LookupTable} {text : String} {e : Expression} {value : Decimal}
  {unit : Option String}

theorem isUnitText_of_evaluate (hparse : Expression.parse text = .ok e)
    (h : (evaluate table e).result = .ok (.number value unit)) :
    ∀ u ∈ unit, IsUnitText u := by
  -- an atom of a text that was read has a unit of unit characters or none
  have hunits : ∀ {text : String} {e : Expression}, Expression.parse text = .ok e →
      ∀ atom ∈ e.atoms, ∀ u ∈ atom.unit?, IsUnitText u := by
    intro text e hparse atom hmem u hu
    cases atom with
    | number value unit source =>
        rw [Atom.unit?, Part.unitOf] at hu
        split at hu
        · cases hu
        · rename_i hne
          cases hu
          exact ⟨by simpa using hne, Expression.isUnitChar_of_parse hparse hmem⟩
    | operator _ | verbatim _ | reference _ => cases hu
  obtain ⟨leaves, hexpands, hfirst⟩ := exists_expands_of_valueWith
    (fun r v hv => isWorth_of_resolveAfresh hv) (evaluateAfresh_of_evaluate h)
  have hleaves := hexpands.forall_mem (fun r raw e hget hparse => hunits hparse) (hunits hparse)
  intro u hu
  have hfound : leaves.findSome? Atom.unit? = some u := by
    rw [← hfirst rfl]
    exact hu
  obtain ⟨atom, hmem, hatom⟩ := List.exists_of_findSome?_eq_some hfound
  exact hleaves atom hmem u hatom

theorem normalize_of_evaluate (h : (evaluate table e).result = .ok (.number value unit)) :
    value.normalize = value := by
  have hsame := assemble_ofEvaluated_of_valueWith (evaluateAfresh_of_evaluate h)
  rw [Part.ofEvaluated, assemble_number, Except.ok.injEq, Evaluated.number.injEq] at hsame
  exact hsame.1

end

/-! ## The displayed number -/

/-- The minus sign of a negative number as an atom. -/
def signOf (value : Decimal) : List Atom :=
  if value.coefficient < 0 then [.operator .subtract] else []

/-- The expression that a number with a unit is displayed as. -/
def Expression.ofNumber (value : Decimal) (unit : Option String) : Expression where
  source := (Evaluated.number value unit).display
  atoms := signOf value ++ [.number value.magnitude (unit.getD "")
    (String.ofList (value.unsignedText ++ (unit.getD "").toList))]
  numeric := true

section

variable {value : Decimal} {unit : Option String}

theorem unitOf_getD (hunit : ∀ u ∈ unit, IsUnitText u) : Part.unitOf (unit.getD "") = unit := by
  cases unit with
  | none => rfl
  | some u => exact if_neg (by simpa using (hunit u rfl).ne_empty)

theorem isUnitChar_getD (hunit : ∀ u ∈ unit, IsUnitText u) :
    ∀ c ∈ (unit.getD "").toList, isUnitChar c = true := by
  cases unit with
  | none =>
      intro c hc
      cases hc
  | some u => exact (hunit u rfl).chars

theorem Decimal.termWord_unsignedText (value : Decimal) (unit : String)
    (hunit : ∀ c ∈ unit.toList, isUnitChar c = true) :
    TermWord (value.unsignedText ++ unit.toList) (.number value.magnitude unit
      (String.ofList (value.unsignedText ++ unit.toList))) := by
  have hterm := TermWord.number (fun _ => isDecimalDigit_of_mem_whole)
    (fun _ => isDecimalDigit_of_mem_places) (.of_digits (whole_ne_nil value)) (read?_digits value)
    hunit
  rwa [String.ofList_toList] at hterm

theorem toList_display (value : Decimal) (unit : Option String) :
    (Evaluated.number value unit).display.toList =
      (if value.coefficient < 0 then ['-'] else []) ++
        (value.unsignedText ++ (unit.getD "").toList) := by
  rw [Evaluated.display, String.toList_append, Evaluated.bareText, Decimal.toList_text,
    List.append_assoc]
  rfl

/-- A number with its unit is displayed as a word of the grammar. -/
theorem formulaWord_display (hunit : ∀ u ∈ unit, IsUnitText u) :
    FormulaWord (Evaluated.number value unit).display.toList
      (Expression.ofNumber value unit).atoms := by
  have hterm := value.termWord_unsignedText (unit.getD "") (isUnitChar_getD hunit)
  rw [toList_display, Expression.ofNumber, signOf]
  split
  · have hword := FormulaWord.signed .subtract hterm .nil
    rwa [List.append_nil] at hword
  · have hword := FormulaWord.plain hterm .nil
    rwa [List.append_nil] at hword

theorem forall_mem_display (hunit : ∀ u ∈ unit, IsUnitText u) :
    ∀ c ∈ (Evaluated.number value unit).display.toList, c ≠ '(' ∧ isBlank c = false := by
  have hterm : ∀ c ∈ value.unsignedText ++ (unit.getD "").toList, isTermChar c = true :=
    (NumberWord.of_digits value.whole_ne_nil).isTermChar
      (fun _ => Decimal.isDecimalDigit_of_mem_whole)
      (fun _ => Decimal.isDecimalDigit_of_mem_places) (isUnitChar_getD hunit)
  intro c hc
  rw [toList_display, List.mem_append] at hc
  rcases hc with hsign | hc
  · split at hsign
    · rw [List.mem_singleton.mp hsign]
      decide
    · cases hsign
  · exact ⟨ne_parenthesis_of_isTermChar (hterm c hc), isBlank_of_isTermChar (hterm c hc)⟩

/-- The displayed number is read as the number itself, with its sign in front. -/
theorem parse_display (hunit : ∀ u ∈ unit, IsUnitText u) :
    Expression.parse (Evaluated.number value unit).display = .ok (.ofNumber value unit) :=
  Expression.parse_of_formulaWord (forall_mem_display hunit) (formulaWord_display hunit)

/-- A number with a minus sign in front is worth the number with the other sign. -/
theorem assemble_negated (value : Decimal) (unit : Option String) :
    assemble true [.operator .subtract, .number value unit] =
      .ok (.number value.neg.normalize unit) := by
  have hunit : [Part.operator .subtract, .number value unit].findSome? Part.unit? = unit := by
    cases unit <;> rfl
  have hexact := @assemble_exact [.operator .subtract, .number value unit]
    (.negative (.number value)) value.neg rfl rfl trivial (Decimal.toRat_neg value)
  rwa [hunit] at hexact

/-- The displayed number is worth the number. -/
theorem result_evaluate_ofNumber (hnormal : value.normalize = value)
    (hunit : ∀ u ∈ unit, IsUnitText u) (table : LookupTable) :
    (evaluate table (.ofNumber value unit)).result = .ok (.number value unit) := by
  by_cases hnegative : value.coefficient < 0
  · have hparts : (resolveAtoms (resolve table maxReferenceDepth []) []
        (Expression.ofNumber value unit).atoms).result =
          .ok ([.operator .subtract, .number value.magnitude (Part.unitOf (unit.getD ""))], []) := by
      rw [Expression.ofNumber, signOf, if_pos hnegative]
      rfl
    rw [unitOf_getD hunit] at hparts
    calc (evaluate table (.ofNumber value unit)).result
        = assemble true [.operator .subtract, .number value.magnitude unit] :=
          result_evaluate_of_resolveAtoms hparts
      _ = .ok (.number value.magnitude.neg.normalize unit) := assemble_negated _ _
      _ = .ok (.number value unit) := by rw [Decimal.neg_magnitude hnegative, hnormal]
  · have hparts : (resolveAtoms (resolve table maxReferenceDepth []) []
        (Expression.ofNumber value unit).atoms).result =
          .ok ([.number value.magnitude (Part.unitOf (unit.getD ""))], []) := by
      rw [Expression.ofNumber, signOf, if_neg hnegative]
      rfl
    rw [unitOf_getD hunit] at hparts
    calc (evaluate table (.ofNumber value unit)).result
        = assemble true [.number value.magnitude unit] := result_evaluate_of_resolveAtoms hparts
      _ = .ok (.number value.magnitude.normalize unit) := assemble_number _ _
      _ = .ok (.number value unit) := by rw [Decimal.magnitude_of_nonneg hnegative, hnormal]

theorem references_ofNumber (value : Decimal) (unit : Option String) :
    (Expression.ofNumber value unit).references = [] := by
  rw [Expression.references, Expression.ofNumber, signOf]
  split <;> rfl

end

/-- **Displayed numbers read back.** If an expression that was read from a text is worth a
number, the display of the number with its unit is read as a numeric expression without
references, which is worth the same number with the same unit whatever table it is evaluated
against. The number is written in plain notation: without an exponent, without zeros at the
end of its places, and never as a negative zero. -/
theorem evaluate_display_reads_back {table : LookupTable} {text : String} {e : Expression}
    {value : Decimal} {unit : Option String} (hparse : Expression.parse text = .ok e)
    (h : (evaluate table e).result = .ok (.number value unit)) :
    (∃ e', Expression.parse (Evaluated.number value unit).display = .ok e' ∧
      e'.numeric = true ∧ e'.references = [] ∧
      ∀ table' : LookupTable, (evaluate table' e').result = .ok (.number value unit)) ∧
    ∃ negative whole places, IsPlain value.text.toList negative whole places := by
  have hunit := isUnitText_of_evaluate hparse h
  have hnormal := normalize_of_evaluate h
  have hreduced : value.IsReduced := by
    rw [← hnormal]
    exact value.isReduced_normalize
  exact ⟨⟨_, parse_display hunit, rfl, references_ofNumber value unit,
    result_evaluate_ofNumber hnormal hunit⟩, _, _, _, hreduced.isPlain_text⟩

/-- `{b}` is a negative quotient that is rounded, with the unit of `{a}`. -/
def quotientTable : LookupTable := ⟨[("{a}", "2rem"), ("{b}", "-{a} / 3"), ("{c}", "0.10")]⟩

/-- `{b}+{c}` -/
def quotientExpression : Expression :=
  ⟨"{b}+{c}", [.reference "{b}", .operator .add, .reference "{c}"], true⟩

/-- `-0.5666666666666666666666666667` -/
def roundedQuotient : Decimal := ⟨-5666666666666666666666666667, 28, by decide, by decide⟩

theorem evaluate_display_reads_back_quotient :
    Expression.parse "{b} + {c}" = .ok quotientExpression ∧
      (evaluate quotientTable quotientExpression).result =
        .ok (.number roundedQuotient (some "rem")) ∧
      ∃ e', Expression.parse "-0.5666666666666666666666666667rem" = .ok e' ∧
        e'.numeric = true ∧ e'.references = [] ∧
        ∀ table', (evaluate table' e').result = .ok (.number roundedQuotient (some "rem")) := by
  have hparse : Expression.parse "{b} + {c}" = .ok quotientExpression := by decide +kernel
  have hvalue : (evaluate quotientTable quotientExpression).result =
      .ok (.number roundedQuotient (some "rem")) := by
    decide +kernel
  have hdisplay : (Evaluated.number roundedQuotient (some "rem")).display =
      "-0.5666666666666666666666666667rem" := by
    decide +kernel
  obtain ⟨hread, -⟩ := evaluate_display_reads_back hparse hvalue
  rw [hdisplay] at hread
  exact ⟨hparse, hvalue, hread⟩

end DesignTokens
