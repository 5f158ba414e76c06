import DesignTokens.Proofs.Evaluation.Memo
import DesignTokens.Proofs.Expression.Scanning
import DesignTokens.Proofs.Formula.Folding
import DesignTokens.Proofs.Json.Reading
import DesignTokens.Proofs.Json.Written
import DesignTokens.Tree.OfJson

set_option autoImplicit false

/-! # Written numbers as values

What the text of a number is worth when it is read as a value. A literal without an exponent
is one number term with an optional sign, and it keeps its value. In a literal with an
exponent the letter `e` ends the number: it is the unit of what stands before it, and the
sign of the exponent is an operator. So `1e-7` is `1e` minus `7`
(`evaluate_text_of_isWritten`).
-/

namespace DesignTokens

/-! ## Characters -/

open JsonToken in
theorem isBlank_of_isNumberChar {c : Char} (h : isNumberChar c = true) : isBlank c = false := by
  simp only [isNumberChar, Bool.or_eq_true, beq_iff_eq, or_assoc] at h
  rcases h with hdigit | rfl | rfl | rfl | rfl | rfl
  · have hrange := toNat_of_isDecimalDigit hdigit
    simp only [isBlank, Bool.or_eq_false_iff, Bool.and_eq_false_iff, decide_eq_false_iff_not,
      beq_eq_false_iff_ne, ne_eq]
    omega
  all_goals decide

namespace JsonNumber

open JsonToken in
/-- The text of a literal is made of the characters of numbers. -/
theorem Literal.isNumberChar_of_mem_text {l : Literal} (h : l.IsWellFormed) :
    ∀ c ∈ l.text, isNumberChar c = true := by
  have hdigit : ∀ c, isDecimalDigit c = true → isNumberChar c = true := by
    intro c hc
    simp [isNumberChar, hc]
  obtain ⟨negative, whole, places, exponent⟩ := l
  have hplaces : ∀ c ∈ pointText places, isNumberChar c = true := by
    cases places with
    | none => rintro c ⟨⟩
    | some places =>
        intro c hc
        rcases List.mem_cons.mp hc with rfl | hc
        · decide
        · exact hdigit c (h.places_digits c hc)
  have hexponent : ∀ c ∈ exponentText exponent, isNumberChar c = true := by
    cases exponent with
    | none => rintro c ⟨⟩
    | some k =>
        intro c hc
        rcases List.mem_cons.mp hc with rfl | hc
        · decide
        rcases List.mem_cons.mp hc with rfl | hc
        · split_ifs <;> decide
        · exact hdigit c (isDecimalDigit_of_mem_toDigits hc)
  intro c hc
  rcases List.mem_append.mp hc with hc | hc
  · dsimp only at hc
    split_ifs at hc
    · rw [List.mem_singleton.mp hc]
      decide
    · cases hc
  rcases List.mem_append.mp hc with hc | hc
  · exact hdigit c (h.whole_digits c hc)
  rcases List.mem_append.mp hc with hc | hc
  · exact hplaces c hc
  · exact hexponent c hc

/-! ## Terms -/

/-- The operator that the sign of an exponent is read as. -/
def exponentOperator (k : Int) : Operator := if k < 0 then .subtract else .add

/-- The unit that a number with an exponent is read with. -/
def exponentUnit : Option Int → List Char
  | none => []
  | some _ => ['e']

/-- What follows the number with its unit. -/
def exponentTail : Option Int → List Char
  | none => []
  | some k => (exponentOperator k).toChar :: Nat.toDigits 10 k.natAbs

theorem exponentText_eq (exponent : Option Int) :
    exponentText exponent = exponentUnit exponent ++ exponentTail exponent := by
  cases exponent with
  | none => rfl
  | some k =>
      rw [exponentText, exponentUnit, exponentTail, exponentOperator]
      split_ifs <;> rfl

/-- The sign of a literal as an atom. -/
def signAtoms (negative : Bool) : List Atom := if negative then [.operator .subtract] else []

/-- The atoms of what follows the number with its unit. -/
def exponentAtoms (value : Decimal) : Option Int → List Atom
  | none => []
  | some k =>
    [.operator (exponentOperator k), .number value "" (String.ofList (Nat.toDigits 10 k.natAbs))]

/-- The number of a literal with its unit. -/
def Literal.term (l : Literal) : List Char :=
  l.whole ++ pointText l.places ++ exponentUnit l.exponent

/-- The atoms of a literal. -/
def Literal.atoms (l : Literal) (value exponentValue : Decimal) : List Atom :=
  signAtoms l.negative ++
    .number value (String.ofList (exponentUnit l.exponent)) (String.ofList l.term) ::
      exponentAtoms exponentValue l.exponent

/-- The digits of a literal are read without loss: those of its number as one decimal, and
those of its exponent as another. -/
structure Literal.ReadAs (l : Literal) (value exponentValue : Decimal) : Prop where
  read? : Decimal.read? l.whole l.decimals = some value
  toRat : value.toRat = (digitsValue (l.whole ++ l.decimals) : Rat) / 10 ^ l.decimals.length
  exponent_read? : ∀ k, l.exponent = some k →
    Decimal.read? (Nat.toDigits 10 k.natAbs) [] = some exponentValue
  exponent_toRat : ∀ k, l.exponent = some k → exponentValue.toRat = (k.natAbs : Rat)

section

variable {l : Literal} {value exponentValue : Decimal}

theorem Literal.termWord (h : l.IsWellFormed) (hread : l.ReadAs value exponentValue) :
    TermWord l.term
      (.number value (String.ofList (exponentUnit l.exponent)) (String.ofList l.term)) := by
  have hunit : ∀ c ∈ exponentUnit l.exponent, isUnitChar c = true := by
    cases l.exponent with
    | none => rintro c ⟨⟩
    | some k =>
        intro c hc
        rw [List.mem_singleton.mp hc]
        decide
  have hword : NumberWord l.whole l.decimals (l.whole ++ pointText l.places) := by
    cases hplaces : l.places with
    | none =>
        rw [Literal.decimals, hplaces, pointText, List.append_nil]
        exact .integer h.whole_ne_nil
    | some places =>
        rw [Literal.decimals, hplaces, pointText]
        exact .mixed h.whole_ne_nil fun hnil => h.places_ne_nil (by rw [hplaces]; exact congrArg some hnil)
  exact .number h.whole_digits h.places_digits hword hread.read? hunit

theorem operatorTerms_exponentTail {exponent : Option Int}
    (hexponent : ∀ k, exponent = some k →
      Decimal.read? (Nat.toDigits 10 k.natAbs) [] = some exponentValue) :
    OperatorTerms (exponentTail exponent) (exponentAtoms exponentValue exponent) := by
  cases exponent with
  | none => exact .nil
  | some k =>
      have hdigits : ∀ c ∈ Nat.toDigits 10 k.natAbs, isDecimalDigit c = true := fun c hc =>
        isDecimalDigit_of_mem_toDigits hc
      have hne : Nat.toDigits 10 k.natAbs ≠ [] := List.length_pos_iff.mp Nat.length_toDigits_pos
      have hterm : TermWord (Nat.toDigits 10 k.natAbs ++ []) _ :=
        .number hdigits (by simp) (.integer hne) (hexponent k rfl) (by simp)
      have hterms := OperatorTerms.cons (exponentOperator k) hterm .nil
      rw [exponentTail, exponentAtoms]
      simpa using hterms

/-- The text of a literal is a formula. -/
theorem Literal.formulaWord (h : l.IsWellFormed) (hread : l.ReadAs value exponentValue) :
    FormulaWord l.text (l.atoms value exponentValue) := by
  have hterm := Literal.termWord h hread
  have htail := operatorTerms_exponentTail hread.exponent_read?
  have htext : l.unsignedText = l.term ++ exponentTail l.exponent := by
    rw [Literal.unsignedText, exponentText_eq, Literal.term]
    simp
  rw [Literal.text, Literal.atoms, htext]
  cases l.negative with
  | true =>
      show FormulaWord ('-' :: (l.term ++ exponentTail l.exponent)) _
      exact .signed .subtract hterm htail
  | false =>
      show FormulaWord (l.term ++ exponentTail l.exponent) _
      exact .plain hterm htail

end

/-! ## Values -/

/-- The unit that a literal is read with. -/
def Literal.unit? (l : Literal) : Option String := l.exponent.map fun _ => "e"

/-- The parts of a literal. -/
def Literal.parts (l : Literal) (value exponentValue : Decimal) : List Part :=
  (if l.negative then [.operator .subtract] else []) ++
    .number value l.unit? ::
      match l.exponent with
      | none => []
      | some k => [.operator (exponentOperator k), .number exponentValue none]

/-- The number of a literal with its sign. -/
def Literal.signed (l : Literal) (value : Decimal) : SumTree :=
  if l.negative then .negative (.number value) else .first (.number value)

/-- The sum that a literal is read as. -/
def Literal.sum (l : Literal) (value exponentValue : Decimal) : SumTree :=
  match l.exponent with
  | none => l.signed value
  | some k =>
    if k < 0 then (l.signed value).minus (.number exponentValue)
    else (l.signed value).plus (.number exponentValue)

section

variable {l : Literal} {value exponentValue : Decimal}

theorem Literal.resolveAtoms_atoms
    (resolve : Memo → String → Traced EvalError (Evaluated × Memo)) (memo : Memo) :
    (resolveAtoms resolve memo (l.atoms value exponentValue)).result =
      .ok (l.parts value exponentValue, memo) := by
  obtain ⟨negative, whole, places, exponent⟩ := l
  cases exponent with
  | none => cases negative <;> rfl
  | some k => cases negative <;> rfl

theorem Literal.any_isText_parts : (l.parts value exponentValue).any Part.isText = false := by
  obtain ⟨negative, whole, places, exponent⟩ := l
  cases exponent with
  | none => cases negative <;> rfl
  | some k => cases negative <;> rfl

theorem Literal.findSome?_parts : (l.parts value exponentValue).findSome? Part.unit? = l.unit? := by
  obtain ⟨negative, whole, places, exponent⟩ := l
  cases exponent with
  | none => cases negative <;> rfl
  | some k => cases negative <;> rfl

theorem Literal.terms_parts :
    (l.parts value exponentValue).filterMap Part.term? = (l.sum value exponentValue).terms := by
  obtain ⟨negative, whole, places, exponent⟩ := l
  cases exponent with
  | none => cases negative <;> rfl
  | some k =>
      simp only [Literal.parts, Literal.sum, exponentOperator]
      by_cases hneg : k < 0
      · rw [if_pos hneg, if_pos hneg]
        cases negative <;> rfl
      · rw [if_neg hneg, if_neg hneg]
        cases negative <;> rfl

/-- Without references evaluation is the arithmetic of the terms. -/
theorem Literal.result_evaluate_atoms {d : Decimal}
    (hd : evaluateTerms (l.sum value exponentValue).terms = .ok d) (table : LookupTable)
    (source : String) :
    (evaluate table ⟨source, l.atoms value exponentValue, true⟩).result =
      .ok (.number d.normalize l.unit?) := by
  rw [result_evaluate_of_resolveAtoms (Literal.resolveAtoms_atoms _ _), assemble,
    Literal.any_isText_parts, Literal.terms_parts, hd, Literal.findSome?_parts]
  rfl

/-! ## Exactness -/

theorem Literal.IsWritten.digitsValue_lt (h : l.IsWritten) :
    digitsValue (l.whole ++ l.decimals) < 10 ^ 23 := by
  have hdigits : ∀ c ∈ l.whole ++ l.decimals, isDecimalDigit c = true := by
    intro c hc
    rcases List.mem_append.mp hc with hc | hc
    · exact h.whole_digits c hc
    · exact h.places_digits c hc
  calc digitsValue (l.whole ++ l.decimals)
      < 10 ^ (l.whole ++ l.decimals).length := DesignTokens.digitsValue_lt hdigits
    _ ≤ 10 ^ 23 := Nat.pow_le_pow_right (by decide) h.length_le

theorem Literal.IsWritten.length_decimals_le (h : l.IsWritten) : l.decimals.length ≤ 23 := by
  have hle := h.length_le
  rw [List.length_append] at hle
  omega

/-- The digits of an exponent make a decimal. -/
theorem exists_read?_exponent {k : Int} (hk : k.natAbs ≤ 9999) :
    ∃ d : Decimal, Decimal.read? (Nat.toDigits 10 k.natAbs) [] = some d ∧
      d.toRat = (k.natAbs : Rat) := by
  have hfits : digitsValue (Nat.toDigits 10 k.natAbs ++ []) < coefficientBound := by
    have hbound : 9999 < coefficientBound := by decide
    rw [List.append_nil, digitsValue_toDigits]
    omega
  have hread := Decimal.exists_read?_of_fits (fun _ => isDecimalDigit_of_mem_toDigits)
    (List.forall_mem_nil _) hfits (Nat.zero_le _)
  rwa [List.append_nil, digitsValue_toDigits, List.length_nil, pow_zero, div_one] at hread

/-- The digits of a written number make decimals. -/
theorem Literal.IsWritten.exists_readAs (h : l.IsWritten) :
    ∃ value exponentValue, l.ReadAs value exponentValue := by
  have hbound : 10 ^ 23 < coefficientBound := by decide
  have hscale : 23 ≤ maxScale := by decide
  obtain ⟨value, hread, hvalue⟩ := Decimal.exists_read?_of_fits h.whole_digits h.places_digits
    (h.digitsValue_lt.trans hbound) (h.length_decimals_le.trans hscale)
  cases hcase : l.exponent with
  | none => exact ⟨value, .zero, hread, hvalue, by simp [hcase], by simp [hcase]⟩
  | some k =>
      obtain ⟨exponentValue, hexponentRead, hexponent⟩ :=
        exists_read?_exponent (h.exponent_le k hcase)
      exact ⟨value, exponentValue, hread, hvalue, by simpa [hcase] using hexponentRead,
        by simpa [hcase] using hexponent⟩

theorem Literal.ReadAs.exact_signed (hread : l.ReadAs value exponentValue) :
    (l.signed value).exact = l.mantissa := by
  rw [Literal.mantissa, Literal.signed]
  split_ifs
  · show -value.toRat = _
    rw [hread.toRat]
  · exact hread.toRat

theorem Literal.ReadAs.exact_sum (hread : l.ReadAs value exponentValue) :
    (l.sum value exponentValue).exact = l.mantissa + (l.exponent.getD 0 : Int) := by
  have hsigned := hread.exact_signed
  rw [Literal.sum]
  cases hcase : l.exponent with
  | none => simp [hsigned]
  | some k =>
      have habs := hread.exponent_toRat k hcase
      rw [Nat.cast_natAbs] at habs
      by_cases hneg : k < 0
      · rw [abs_of_neg hneg] at habs
        simp [hneg, SumTree.exact, hsigned, ProductTree.exact, habs]
      · rw [abs_of_nonneg (not_lt.mp hneg)] at habs
        simp [hneg, SumTree.exact, hsigned, ProductTree.exact, habs]

/-- A short mantissa and an exponent add up without rounding. -/
theorem Literal.represents_mantissa_add (h : l.IsWritten) {k : Int} (hk : k.natAbs ≤ 9999) :
    Decimal.Represents (l.mantissa + k) := by
  have hvalue := h.digitsValue_lt
  have hlength := h.length_decimals_le
  have hpow : 10 ^ l.decimals.length ≤ 10 ^ 23 := Nat.pow_le_pow_right (by decide) hlength
  obtain ⟨signed, hsigned⟩ : ∃ signed : Int, signed =
      if l.negative then -(digitsValue (l.whole ++ l.decimals) : Int)
      else digitsValue (l.whole ++ l.decimals) := ⟨_, rfl⟩
  have hsmall : signed.natAbs < 10 ^ 23 := by
    rw [hsigned]
    split_ifs
    · rw [Int.natAbs_neg]
      exact hvalue
    · exact hvalue
  have hshift : (k * (10 ^ l.decimals.length : Nat)).natAbs ≤ 9999 * 10 ^ 23 := by
    rw [Int.natAbs_mul]
    exact Nat.mul_le_mul hk hpow
  have hfits : (signed + k * (10 ^ l.decimals.length : Nat)).natAbs < coefficientBound := by
    have hbound : 10 ^ 23 + 9999 * 10 ^ 23 < coefficientBound := by decide
    omega
  refine ⟨⟨_, l.decimals.length, hfits, hlength.trans (by decide)⟩, ?_⟩
  have hten : (10 : Rat) ^ l.decimals.length ≠ 0 := by positivity
  have hmantissa : l.mantissa = (signed : Rat) / 10 ^ l.decimals.length := by
    rw [Literal.mantissa, hsigned]
    split_ifs
    · push_cast
      rw [neg_div]
    · push_cast
      rfl
  rw [Decimal.toRat, hmantissa]
  push_cast
  field_simp

theorem Literal.isExact_sum (h : l.IsWritten) (hread : l.ReadAs value exponentValue) :
    (l.sum value exponentValue).IsExact := by
  have hsigned : (l.signed value).IsExact := by
    rw [Literal.signed]
    split_ifs <;> exact trivial
  have hexact := hread.exact_sum
  rw [Literal.sum] at hexact ⊢
  cases hcase : l.exponent with
  | none => exact hsigned
  | some k =>
      have hsum := Literal.represents_mantissa_add h (h.exponent_le k hcase)
      simp only [hcase, Option.getD_some] at hexact ⊢
      rw [← hexact] at hsum
      by_cases hneg : k < 0
      · rw [if_pos hneg] at hsum ⊢
        exact ⟨hsigned, trivial, hsum⟩
      · rw [if_neg hneg] at hsum ⊢
        exact ⟨hsigned, trivial, hsum⟩

/-- The text of a literal is worth its mantissa plus its exponent, with the unit `e` if it
has an exponent. -/
theorem evaluate_text_of_isWritten (h : l.IsWritten) (table : LookupTable) :
    ∃ e d, Expression.parse (String.ofList l.text) = .ok e ∧
      (evaluate table e).result = .ok (.number d l.unit?) ∧
      d.toRat = l.mantissa + (l.exponent.getD 0 : Int) := by
  obtain ⟨value, exponentValue, hread⟩ := h.exists_readAs
  have hword := Literal.formulaWord h.toIsWellFormed hread
  have hchars : ∀ c ∈ (String.ofList l.text).toList, c ≠ '(' ∧ isBlank c = false := by
    intro c hc
    rw [String.toList_ofList] at hc
    have hnumber := Literal.isNumberChar_of_mem_text h.toIsWellFormed c hc
    refine ⟨?_, isBlank_of_isNumberChar hnumber⟩
    rintro rfl
    exact absurd hnumber (by decide)
  have hparse := Expression.parse_of_formulaWord hchars (by rwa [String.toList_ofList])
  obtain ⟨d, hd, hexact⟩ := evaluateTerms_exact (Literal.isExact_sum h hread)
  refine ⟨_, d.normalize, hparse, Literal.result_evaluate_atoms hd table _, ?_⟩
  rw [Decimal.toRat_normalize, hexact, hread.exact_sum]

end

end JsonNumber

/-! ## Tokens -/

theorem Json.IsRead.inRange {number : JsonNumber} (h : (Json.number number).IsRead) :
    number.InRange := by
  cases h with
  | number hliteral => exact JsonNumber.inRange_of_ofLiteral? hliteral

theorem Token.ofMembers_number {members : List (String × Json)} {number : JsonNumber}
    (h : members.lookup "value" = some (.number number)) (path tokenType : String) :
    ofMembers path tokenType members = .ok ⟨.scalar number.text, tokenType⟩ := by
  rw [ofMembers, h]
  rfl

/-- **What a number of a document is worth.** A token whose value is a number holds the text
of the number, which is a literal. If the literal has no exponent, the token evaluates to
the number that it denotes, without a unit and without rounding. If it has one, the letter
in front of the exponent is taken for a unit: the token evaluates to the sum of mantissa and
exponent, with the unit `e`. -/
theorem evaluate_number {text : String} {document : Json} {members : List (String × Json)}
    {number : JsonNumber} (hparse : Json.parse? text = some document)
    (hholds : document.Holds (.object members))
    (hvalue : members.lookup "value" = some (.number number)) (path tokenType : String)
    (table : LookupTable) :
    Token.ofMembers path tokenType members = .ok ⟨.scalar number.text, tokenType⟩ ∧
    ∃ l e d, JsonNumber.splitLiteral? number.text.toList = some l ∧
      Expression.parse number.text = .ok e ∧
      (l.exponent = none →
        (evaluate table e).result = .ok (.number d none) ∧ d.toRat = l.toRat) ∧
      ∀ k, l.exponent = some k →
        (evaluate table e).result = .ok (.number d (some "e")) ∧ d.toRat = l.mantissa + k := by
  refine ⟨Token.ofMembers_number hvalue path tokenType, ?_⟩
  have hmember : ("value", Json.number number) ∈ members := mem_of_lookup_eq_some hvalue
  have hread : (Json.number number).IsRead :=
    (Json.isRead_of_parse? hparse).of_holds (hholds.trans (.member hmember (.self _)))
  obtain ⟨l, hwritten, htext⟩ := JsonNumber.exists_text hread.inRange
  obtain ⟨e, d, he, hresult, hd⟩ := JsonNumber.evaluate_text_of_isWritten hwritten table
  rw [JsonNumber.Literal.unit?] at hresult
  refine ⟨l, e, d, ?_, ?_, ?_, ?_⟩
  · rw [htext, String.toList_ofList]
    exact JsonNumber.splitLiteral?_text hwritten.toIsWellFormed
  · rw [htext]
    exact he
  · intro hnone
    rw [hnone] at hresult hd
    refine ⟨hresult, ?_⟩
    rw [hd, JsonNumber.Literal.toRat, hnone]
    simp
  · intro k hk
    rw [hk] at hresult hd
    exact ⟨hresult, hd⟩

/-- A document with a number that is stored as `1e-7`. -/
def smallNumberText : String := "\x7b\"a\":\x7b\"value\":1e-7,\"type\":\"number\"\x7d\x7d"

/-- The number in a document of one token with the key `a`. -/
def Json.numberOfToken? : Json → Option JsonNumber
  | .object [("a", .object [("value", .number n), ("type", .text "number")])] => some n
  | _ => none

theorem parse?_smallNumberText :
    ∃ document members number, Json.parse? smallNumberText = some document ∧
      document.Holds (.object members) ∧ members.lookup "value" = some (.number number) ∧
      number.text = "1e-7" := by
  have htext : ((Json.parse? smallNumberText).bind Json.numberOfToken?).map JsonNumber.text =
      some "1e-7" := by
    decide +kernel
  obtain ⟨number, hnumber, htext⟩ := Option.map_eq_some_iff.mp htext
  obtain ⟨document, hparse, hnumber⟩ := Option.bind_eq_some_iff.mp hnumber
  unfold Json.numberOfToken? at hnumber
  split at hnumber
  · cases hnumber
    exact ⟨_, _, number, hparse, .member List.mem_cons_self (.self _), rfl, htext⟩
  · cases hnumber

/-- The number is taken for `1e` minus `7`. -/
theorem evaluate_number_scientific :
    ∃ document members number, Json.parse? smallNumberText = some document ∧
      document.Holds (.object members) ∧ members.lookup "value" = some (.number number) ∧
      number.text = "1e-7" ∧
      ∃ e d, Expression.parse number.text = .ok e ∧
        (evaluate .empty e).result = .ok (.number d (some "e")) ∧ d.toRat = -6 := by
  obtain ⟨document, members, number, hparse, hholds, hvalue, htext⟩ := parse?_smallNumberText
  obtain ⟨-, l, e, d, hsplit, he, -, hscientific⟩ :=
    evaluate_number hparse hholds hvalue "a" "number" .empty
  have hliteral : JsonNumber.splitLiteral? number.text.toList =
      some ⟨false, ['1'], none, some (-7)⟩ := by
    rw [htext]
    rfl
  rw [hliteral, Option.some.injEq] at hsplit
  subst hsplit
  obtain ⟨hresult, hd⟩ := hscientific (-7) rfl
  have hmantissa : JsonNumber.Literal.mantissa ⟨false, ['1'], none, some (-7)⟩ = 1 := by
    have hone : digitsValue ['1'] = 1 := by decide
    simp [JsonNumber.Literal.mantissa, JsonNumber.Literal.decimals, hone]
  refine ⟨document, members, number, hparse, hholds, hvalue, htext, e, d, he, hresult, ?_⟩
  rw [hd, hmantissa]
  norm_num

end DesignTokens
