import DesignTokens.Proofs.Evaluation.Expansion
import DesignTokens.Proofs.Evaluation.Order
import DesignTokens.Proofs.Formula.Defects
import DesignTokens.Proofs.Traversal

set_option autoImplicit false

/-! # Malformed formulas

A formula that was read from a text is malformed for one reason only: its text begins with
`*` or `/`. The atoms of a numeric text are a word of the grammar, so whatever its
references are worth, the terms are a number with an operator or none in front, followed by
operators with a number each (`Expression.exists_signedTerms`). The operator in front is the
first character of the text, and of all defects only a leading factor is left.

`malformed_only_by_leading_factor` carries this through the references of a whole
evaluation.
-/

namespace DesignTokens

/-- Whether a text, without its blanks, begins with `*` or `/`. -/
def BeginsWithFactor (text : String) : Prop :=
  (stripBlanks text).toList.head? = some '*' ∨ (stripBlanks text).toList.head? = some '/'

instance : DecidablePred BeginsWithFactor := fun _ => inferInstanceAs (Decidable (_ ∨ _))

/-- The operator that a text begins with. -/
def leadingOperator? (text : List Char) : Option Operator := text.head?.bind Operator.ofChar?

/-- What an atom may become when its reference, if it is one, is resolved. -/
inductive Part.IsOf : Atom → Part → Prop
  | operator (op : Operator) : IsOf (.operator op) (.operator op)
  | number (value : Decimal) (unit text : String) :
      IsOf (.number value unit text) (.number value (unitOf unit))
  | verbatim (content : String) : IsOf (.verbatim content) (.text content)
  | reference (r : String) (value : Evaluated) : IsOf (.reference r) (.ofEvaluated value)

/-- Each of some references, resolved in turn with what those before it left in the memo,
is worth a number. -/
def ResolvesToNumbers (resolve : Memo → String → Traced EvalError (Evaluated × Memo)) :
    Memo → List String → Prop
  | _, [] => True
  | memo, r :: references => ∃ value memo', (resolve memo r).result = .ok (value, memo') ∧
      value.isNumber = true ∧ ResolvesToNumbers resolve memo' references

/-! ## The operator in front -/

theorem beginsWithFactor_iff {text : String} :
    BeginsWithFactor text ↔ ∃ op, leadingOperator? (stripBlanks text).toList = some op ∧
      op.isMultiplicative = true := by
  rw [BeginsWithFactor, leadingOperator?]
  cases (stripBlanks text).toList.head? with
  | none => simp
  | some c =>
      simp only [Option.some.injEq, Option.bind_some]
      constructor
      · rintro (rfl | rfl)
        · exact ⟨.multiply, rfl, rfl⟩
        · exact ⟨.divide, rfl, rfl⟩
      · rintro ⟨op, hop, hfactor⟩
        rw [← Operator.toChar_of_ofChar? hop]
        cases op with
        | multiply => exact Or.inl rfl
        | divide => exact Or.inr rfl
        | add | subtract => cases hfactor

/-- A term does not begin with an operator. -/
theorem TermWord.leadingOperator?_append {term : List Char} {atom : Atom}
    (h : TermWord term atom) (rest : List Char) : leadingOperator? (term ++ rest) = none := by
  cases h with
  | reference hne hpath => rfl
  | @number whole places text unit value hwhole hplaces htext hvalue hunit =>
      obtain ⟨c, tail, htail⟩ := List.exists_cons_of_ne_nil htext.ne_nil
      have hterm : isTermChar c = true :=
        htext.isTermChar hwhole hplaces hunit c (by simp [htail])
      have hnone : Operator.ofChar? c = none := by
        cases hop : Operator.ofChar? c with
        | none => rfl
        | some op =>
            rw [← Operator.toChar_of_ofChar? hop, isTermChar_toChar] at hterm
            cases hterm
      rw [htail]
      exact hnone

/-! ## The terms of a word -/

section

variable {term text : List Char} {atom : Atom} {atoms : List Atom} {parts : List Part}

theorem exists_parts_of_operator {op : Operator}
    (hparts : List.Forall₂ Part.IsOf (.operator op :: atoms) parts)
    (htext : parts.any Part.isText = false) :
    ∃ rest, List.Forall₂ Part.IsOf atoms rest ∧ rest.any Part.isText = false ∧
      parts.filterMap Part.term? = .operator op :: rest.filterMap Part.term? := by
  cases hparts with
  | cons hfirst hrest =>
      cases hfirst
      exact ⟨_, hrest, htext, rfl⟩

/-- Without text, a term is worth a number. -/
theorem TermWord.exists_parts (h : TermWord term atom)
    (hparts : List.Forall₂ Part.IsOf (atom :: atoms) parts)
    (htext : parts.any Part.isText = false) :
    ∃ n rest, List.Forall₂ Part.IsOf atoms rest ∧ rest.any Part.isText = false ∧
      parts.filterMap Part.term? = .number n :: rest.filterMap Part.term? := by
  cases hparts with
  | cons hfirst hrest =>
      cases h with
      | number _ _ _ _ _ =>
          cases hfirst
          exact ⟨_, _, hrest, htext, rfl⟩
      | reference _ _ =>
          cases hfirst with
          | reference r value =>
              cases value with
              | number n unit => exact ⟨n, _, hrest, htext, rfl⟩
              | text content => cases htext

theorem OperatorTerms.exists_pairs (h : OperatorTerms text atoms)
    (hparts : List.Forall₂ Part.IsOf atoms parts) (htext : parts.any Part.isText = false) :
    ∃ pairs : List (Operator × Decimal), parts.filterMap Part.term? = pairs.flatMap pairTerms := by
  induction h generalizing parts with
  | nil =>
      cases hparts
      exact ⟨[], rfl⟩
  | cons op hterm _ ih =>
      obtain ⟨behind, hbehind, htext, hop⟩ := exists_parts_of_operator hparts htext
      obtain ⟨n, rest, hrest, htext, hn⟩ := hterm.exists_parts hbehind htext
      obtain ⟨pairs, hpairs⟩ := ih hrest htext
      refine ⟨(op, n) :: pairs, ?_⟩
      rw [hop, hn, hpairs]
      rfl

/-- Without text, the terms of a word are a number with the operator in front that the word
begins with, and operators with a number each. -/
theorem FormulaWord.exists_signedTerms (h : FormulaWord text atoms)
    (hparts : List.Forall₂ Part.IsOf atoms parts) (htext : parts.any Part.isText = false) :
    ∃ n pairs, parts.filterMap Part.term? = signedTerms (leadingOperator? text) n pairs := by
  cases h with
  | plain hterm hterms =>
      obtain ⟨n, rest, hrest, htext, hn⟩ := hterm.exists_parts hparts htext
      obtain ⟨pairs, hpairs⟩ := hterms.exists_pairs hrest htext
      refine ⟨n, pairs, ?_⟩
      rw [hn, hpairs, hterm.leadingOperator?_append]
      rfl
  | @signed term tail atom atoms op hterm hterms =>
      obtain ⟨behind, hbehind, htext, hop⟩ := exists_parts_of_operator hparts htext
      obtain ⟨n, rest, hrest, htext, hn⟩ := hterm.exists_parts hbehind htext
      obtain ⟨pairs, hpairs⟩ := hterms.exists_pairs hrest htext
      have hlead : leadingOperator? (op.toChar :: (term ++ tail)) = some op :=
        Operator.ofChar?_toChar op
      refine ⟨n, pairs, ?_⟩
      rw [hop, hn, hpairs, hlead]
      rfl

end

/-! ## One expression -/

section

variable {resolve : Memo → String → Traced EvalError (Evaluated × Memo)} {memo m : Memo}
  {atoms : List Atom} {parts : List Part}

theorem Part.isOf_of_ofAtom {f : String → Except EvalError Evaluated} {atom : Atom} {part : Part}
    (h : ofAtom f atom = .ok part) : IsOf atom part := by
  cases atom with
  | operator _ | number _ _ _ | verbatim _ =>
      cases h
      constructor
  | reference r =>
      obtain ⟨value, hvalue⟩ := exists_of_ofAtom h
      rw [ofAtom, hvalue] at h
      cases h
      exact .reference r value

theorem resolveAtoms_isOf (h : (resolveAtoms resolve memo atoms).result = .ok (parts, m)) :
    List.Forall₂ Part.IsOf atoms parts := by
  induction atoms generalizing memo parts m with
  | nil =>
      cases h
      exact .nil
  | cons atom atoms ih =>
      cases atom with
      | operator _ | number _ _ _ | verbatim _ =>
          obtain ⟨⟨rest, m₁⟩, hrest, hpure⟩ := Traced.result_bind_eq_ok.mp h
          cases hpure
          exact .cons (by constructor) (ih hrest)
      | reference r =>
          obtain ⟨⟨value, m₁⟩, -, hnext⟩ := Traced.result_bind_eq_ok.mp h
          obtain ⟨⟨rest, m₂⟩, hrest, hpure⟩ := Traced.result_bind_eq_ok.mp hnext
          cases hpure
          exact .cons (.reference r value) (ih hrest)

/-- Atoms without verbatim text become parts without text if their references are worth
numbers. -/
theorem exists_resolveAtoms_of_resolvesToNumbers
    (hverbatim : ∀ content, Atom.verbatim content ∉ atoms)
    (h : ResolvesToNumbers resolve memo (atoms.filterMap Atom.reference?)) :
    ∃ parts m, (resolveAtoms resolve memo atoms).result = .ok (parts, m) ∧
      parts.any Part.isText = false := by
  induction atoms generalizing memo with
  | nil => exact ⟨[], memo, rfl, rfl⟩
  | cons atom atoms ih =>
      have hrest : ∀ content, Atom.verbatim content ∉ atoms := fun content hmem =>
        hverbatim content (List.mem_cons_of_mem _ hmem)
      cases atom with
      | operator _ | number _ _ _ =>
          obtain ⟨rest, m, hresult, htext⟩ := ih hrest h
          exact ⟨_, m, Traced.result_bind_eq_ok.mpr ⟨_, hresult, rfl⟩, htext⟩
      | verbatim content => exact absurd List.mem_cons_self (hverbatim content)
      | reference r =>
          obtain ⟨value, m₁, hvalue, hnumber, h⟩ := h
          obtain ⟨rest, m, hresult, htext⟩ := ih hrest h
          refine ⟨_, m, Traced.result_bind_eq_ok.mpr
            ⟨_, hvalue, Traced.result_bind_eq_ok.mpr ⟨_, hresult, rfl⟩⟩, ?_⟩
          rw [List.any_cons, Part.isText_ofEvaluated, hnumber, htext]
          rfl

end

theorem assemble_eq_malformed_iff {numeric : Bool} {parts : List Part} :
    (∃ formula, assemble numeric parts = .error (.malformedFormula formula)) ↔
      numeric = true ∧ parts.any Part.isText = false ∧
        evaluateTerms (parts.filterMap Part.term?) = .error .malformed := by
  unfold assemble
  dsimp only
  split
  · rename_i hnumeric
    rw [Bool.and_eq_true, Bool.not_eq_true'] at hnumeric
    cases evaluateTerms (parts.filterMap Part.term?) with
    | ok value => simp
    | error error => cases error <;> simp [hnumeric, EvalError.ofFormula]
  · rename_i hnot
    rw [Bool.and_eq_true, Bool.not_eq_true'] at hnot
    simp only [reduceCtorEq, exists_false, false_iff]
    rintro ⟨hnumeric, htext, -⟩
    exact hnot ⟨hnumeric, htext⟩

section

variable {text : String} {e : Expression} {parts : List Part}

/-- The terms of a numeric text, whatever its references are worth. -/
theorem Expression.exists_signedTerms (hparse : parse text = .ok e) (hnumeric : e.numeric = true)
    (hparts : List.Forall₂ Part.IsOf e.atoms parts) (htext : parts.any Part.isText = false) :
    ∃ n pairs, parts.filterMap Part.term? =
      signedTerms (leadingOperator? (stripBlanks text).toList) n pairs :=
  (formulaWord_of_parse hparse hnumeric).exists_signedTerms hparts htext

/-- The parts of a text are a malformed formula exactly if it is numeric, no part is text, and
it begins with `*` or `/`. -/
theorem Expression.assemble_eq_malformed_iff (hparse : parse text = .ok e)
    (hparts : List.Forall₂ Part.IsOf e.atoms parts) :
    (∃ formula, assemble e.numeric parts = .error (.malformedFormula formula)) ↔
      e.numeric = true ∧ parts.any Part.isText = false ∧ BeginsWithFactor text := by
  rw [DesignTokens.assemble_eq_malformed_iff]
  refine and_congr_right fun hnumeric => and_congr_right fun htext => ?_
  obtain ⟨n, pairs, hterms⟩ := exists_signedTerms hparse hnumeric hparts htext
  rw [hterms, evaluateTerms_signedTerms_eq_malformed_iff, beginsWithFactor_iff]

/-- An error of a malformed formula is that of a reference, or the text begins with `*` or
`/`. -/
theorem valueWith_eq_malformed {f : String → Except EvalError Evaluated} {formula : String}
    (hparse : Expression.parse text = .ok e)
    (h : valueWith f e = .error (.malformedFormula formula)) :
    (∃ r ∈ e.references, f r = .error (.malformedFormula formula)) ∨ BeginsWithFactor text := by
  rcases valueWith_eq_error h with hreference | ⟨parts, hparts, hassemble⟩
  · exact Or.inl hreference
  · have hof : List.Forall₂ Part.IsOf e.atoms parts :=
      (except_mapM_eq_ok_iff.mp hparts).imp fun _ _ hpart => Part.isOf_of_ofAtom hpart
    exact Or.inr ((Expression.assemble_eq_malformed_iff hparse hof).mp ⟨formula, hassemble⟩).2.2

end

/-! ## All that is followed -/

/-- A reference whose raw value begins with `*` or `/`. -/
def LookupTable.HoldsFactor (table : LookupTable) (r : String) : Prop :=
  ∃ raw, table.get? r = some raw ∧ BeginsWithFactor raw

section

variable {table : LookupTable}

theorem resolveAfresh_eq_malformed {limit : Option Nat} {chain : List String}
    {reference formula : String}
    (h : resolveAfresh table limit chain reference = .error (.malformedFormula formula)) :
    ∃ r, Relation.ReflTransGen table.Refers reference r ∧ table.HoldsFactor r := by
  induction chain, reference using resolveAfresh.induct table limit with
  | case1 chain reference hcycle =>
      rw [resolveAfresh_cycle hcycle] at h
      cases h
  | case2 chain reference hopen hget =>
      rw [resolveAfresh_missing (Bool.eq_false_iff.mpr hopen) hget] at h
      cases h
  | case3 chain reference hopen raw hget cause hparse =>
      rw [resolveAfresh_unreadable (Bool.eq_false_iff.mpr hopen) hget hparse] at h
      cases h
  | case4 chain reference hopen raw hget e hparse hnew hless ih =>
      rw [resolveAfresh_parsed (Bool.eq_false_iff.mpr hopen) hget hparse] at h
      rcases valueWith_eq_malformed hparse h with ⟨next, hmem, hnext⟩ | hfactor
      · obtain ⟨r, hpath, hr⟩ := ih next hnext
        exact ⟨r, .head ((LookupTable.refers_iff hget hparse).mpr hmem) hpath, hr⟩
      · exact ⟨reference, .refl, raw, hget, hfactor⟩

/-- A malformed formula is that of the text or of a raw value that it reaches. -/
theorem evaluate_eq_malformed {text formula : String} {e : Expression}
    (hparse : Expression.parse text = .ok e)
    (h : (evaluate table e).result = .error (.malformedFormula formula)) :
    BeginsWithFactor text ∨ ∃ r, table.Reaches e r ∧ table.HoldsFactor r := by
  rcases evaluate_eq_or_cycle table e with heq | ⟨⟨chain, hcycle⟩, -⟩
  · rw [heq, evaluateAfresh] at h
    rcases valueWith_eq_malformed hparse h with ⟨first, hmem, hfirst⟩ | hfactor
    · obtain ⟨r, hpath, hr⟩ := resolveAfresh_eq_malformed hfirst
      exact Or.inr ⟨r, ⟨first, hmem, hpath⟩, hr⟩
    · exact Or.inl hfactor
  · rw [hcycle] at h
    cases h

/-- References that are worth numbers on their own resolve to numbers one after the other. -/
theorem resolvesToNumbers_of_evaluate {references : List String} {memo : Memo}
    (hmemo : memo.Sound table [])
    (h : ∀ r ∈ references, ∃ value,
      (evaluate table (.ofReference r)).result = .ok value ∧ value.isNumber = true) :
    ResolvesToNumbers (resolve table maxReferenceDepth []) memo references := by
  induction references generalizing memo with
  | nil => exact trivial
  | cons r references ih =>
      obtain ⟨⟨own, hown, hnumber⟩, h⟩ := List.forall_mem_cons.mp h
      rw [result_evaluate_ofReference] at hown
      obtain ⟨⟨value, m⟩, hvalue, hassemble⟩ := except_bind_eq_ok_iff.mp hown
      -- the memo can only help
      obtain ⟨m', hvalue', hwithin⟩ :=
        resolve_simulates table maxReferenceDepth [] r (.of_empty hmemo) hvalue
      have htext := ((assemble_eq_ok hassemble).1.mp hnumber).2
      rw [List.any_cons, Part.isText_ofEvaluated, Bool.or_eq_false_iff, Bool.not_eq_false'] at htext
      exact ⟨value, m', hvalue', htext.1, ih hwithin.sound' h⟩

end

/-- **Only a leading `*` or `/` makes a text malformed.** Take an expression that was read from
a text. If its evaluation ends with a malformed formula, the text begins with `*` or `/`, or
the raw value of a reference that it reaches does. Conversely, a numeric text that begins
with `*` or `/` is malformed if its references resolve to numbers. Terms are malformed
exactly when they have a defect, and no other defect than a leading factor occurs in terms
that are read from a text, whatever its references are worth. -/
theorem malformed_only_by_leading_factor {text : String} {e : Expression}
    (hparse : Expression.parse text = .ok e) (table : LookupTable) :
    (∀ formula, (evaluate table e).result = .error (.malformedFormula formula) →
      BeginsWithFactor text ∨
        ∃ r raw, table.Reaches e r ∧ table.get? r = some raw ∧ BeginsWithFactor raw) ∧
    (e.numeric = true → BeginsWithFactor text →
      ResolvesToNumbers (resolve table maxReferenceDepth []) [] e.references →
      ∃ formula, (evaluate table e).result = .error (.malformedFormula formula)) ∧
    (∀ terms, evaluateTerms terms = .error .malformed ↔ ∃ defect : Defect, defect.IsIn terms) ∧
    (∀ f memo parts m, (resolveAtoms f memo e.atoms).result = .ok (parts, m) →
      e.numeric = true → parts.any Part.isText = false →
      ∀ defect : Defect, defect.IsIn (parts.filterMap Part.term?) →
        defect = .leadingFactor ∧ BeginsWithFactor text) := by
  refine ⟨?_, ?_, fun _ => evaluateTerms_eq_malformed_iff_exists_defect, ?_⟩
  · intro formula h
    rcases evaluate_eq_malformed hparse h with hfactor | ⟨r, hreaches, raw, hget, hfactor⟩
    · exact Or.inl hfactor
    · exact Or.inr ⟨r, raw, hreaches, hget, hfactor⟩
  · intro hnumeric hfactor hnumbers
    have hverbatim := ((Expression.numeric_of_parse hparse).mp hnumeric).2
    obtain ⟨parts, m, hparts, htext⟩ :=
      exists_resolveAtoms_of_resolvesToNumbers hverbatim hnumbers
    rw [result_evaluate_of_resolveAtoms hparts]
    exact (Expression.assemble_eq_malformed_iff hparse (resolveAtoms_isOf hparts)).mpr
      ⟨hnumeric, htext, hfactor⟩
  · intro f memo parts m hparts hnumeric htext defect hdefect
    obtain ⟨n, pairs, hterms⟩ :=
      Expression.exists_signedTerms hparse hnumeric (resolveAtoms_isOf hparts) htext
    rw [hterms] at hdefect
    have hleading := Defect.eq_leadingFactor hdefect
    rw [hleading, Defect.leadingFactor_isIn_iff, ← beginsWithFactor_iff] at hdefect
    exact ⟨hleading, hdefect⟩

/-- `{a}` is worth a number, and `{b}` begins with `/`. -/
def factorTable : LookupTable := ⟨[("{a}", "3"), ("{b}", "/2 - {a}")]⟩

/-- `*{a}+{a}` -/
def factorExpression : Expression :=
  ⟨"*{a}+{a}", [.operator .multiply, .reference "{a}", .operator .add, .reference "{a}"], true⟩

/-- `{a}-{b}` -/
def beforeFactorExpression : Expression :=
  ⟨"{a}-{b}", [.reference "{a}", .operator .subtract, .reference "{b}"], true⟩

/-- One text is malformed itself, the other one through its reference. -/
theorem malformed_only_by_leading_factor_referred :
    Expression.parse " * {a} + {a}" = .ok factorExpression ∧
      (∃ formula, (evaluate factorTable factorExpression).result =
        .error (.malformedFormula formula)) ∧
      Expression.parse "{a} - {b}" = .ok beforeFactorExpression ∧
      ∃ r raw, factorTable.Reaches beforeFactorExpression r ∧ factorTable.get? r = some raw ∧
        BeginsWithFactor raw := by
  have hparse : Expression.parse " * {a} + {a}" = .ok factorExpression := by decide +kernel
  have hfactor : BeginsWithFactor " * {a} + {a}" := by decide +kernel
  have hnumber : (evaluate factorTable (.ofReference "{a}")).result =
      .ok (.number ⟨3, 0, by decide, by decide⟩ none) := by
    decide +kernel
  have hnumbers : ResolvesToNumbers (resolve factorTable maxReferenceDepth []) []
      factorExpression.references := by
    refine resolvesToNumbers_of_evaluate (.empty factorTable []) fun r hr => ?_
    have hmem : r ∈ ["{a}", "{a}"] := hr
    have hsame : r = "{a}" := by simpa using hmem
    exact ⟨_, by rw [hsame, hnumber], rfl⟩
  have hparse' : Expression.parse "{a} - {b}" = .ok beforeFactorExpression := by decide +kernel
  have hclean : ¬BeginsWithFactor "{a} - {b}" := by decide +kernel
  have hmalformed : (evaluate factorTable beforeFactorExpression).result =
      .error (.malformedFormula "/2-3") := by
    decide +kernel
  obtain ⟨-, hconverse, -, -⟩ := malformed_only_by_leading_factor hparse factorTable
  obtain ⟨honly, -, -, -⟩ := malformed_only_by_leading_factor hparse' factorTable
  exact ⟨hparse, hconverse rfl hfactor hnumbers, hparse',
    (honly _ hmalformed).resolve_left hclean⟩

end DesignTokens
