import DesignTokens.Proofs.Formula.Folding
import Mathlib.Data.List.Chain

set_option autoImplicit false

/-! # What makes terms malformed

Terms are no formula for one of five reasons (`Defect`): two operators or two numbers stand
next to each other, an operator is the last term, there is no number, or the first term is
`*` or `/`. `evaluateTerms_eq_malformed_iff_exists_defect` says that these are all.

A number with any operator or none in front of it, followed by operators with a number each
(`signedTerms`), can only have the last of these defects, and has it exactly if the operator
in front is `*` or `/`.
-/

namespace DesignTokens

/-- A reason why terms are no formula. -/
inductive Defect
  | doubledOperator
  | doubledNumber
  | lastOperator
  | noNumber
  | leadingFactor
  deriving DecidableEq, Repr

/-- Some terms have a defect. -/
def Defect.IsIn (terms : List Term) : Defect → Prop
  | doubledOperator => ∃ op op', [.operator op, .operator op'] <:+: terms
  | doubledNumber => ∃ n n', [.number n, .number n'] <:+: terms
  | lastOperator => ∃ op, [.operator op] <:+ terms
  | noNumber => ∀ n, .number n ∉ terms
  | leadingFactor => ∃ op, [.operator op] <+: terms ∧ op.isMultiplicative = true

/-- Whether a term is an operator. -/
def Term.isOperator : Term → Bool
  | operator _ => true
  | number _ => false

/-! ## A number with an operator or none in front -/

/-- A number, an operator or none in front of it, and operators with a number each. -/
def signedTerms (sign : Option Operator) (n : Decimal) (pairs : List (Operator × Decimal)) :
    List Term :=
  (sign.map Term.operator).toList ++ .number n :: pairs.flatMap pairTerms

section

variable {sign : Option Operator} {n : Decimal} {pairs : List (Operator × Decimal)}

/-- Operators and numbers alternate. -/
theorem isChain_signedTerms :
    (signedTerms sign n pairs).IsChain fun s t => s.isOperator ≠ t.isOperator := by
  have hnumbers : (Term.number n :: pairs.flatMap pairTerms).IsChain
      fun s t => s.isOperator ≠ t.isOperator := by
    induction pairs generalizing n with
    | nil => exact List.isChain_singleton _
    | cons pair pairs ih =>
        show (Term.number n :: .operator pair.1 :: .number pair.2 :: _).IsChain _
        refine .cons_cons (by simp [Term.isOperator]) (.cons_cons (by simp [Term.isOperator]) ih)
  cases sign with
  | none => exact hnumbers
  | some op => exact .cons_cons (by simp [Term.isOperator]) hnumbers

theorem getLast?_signedTerms : ∃ m, (signedTerms sign n pairs).getLast? = some (.number m) := by
  have hnumbers : ∃ m, (Term.number n :: pairs.flatMap pairTerms).getLast? = some (.number m) := by
    induction pairs generalizing n with
    | nil => exact ⟨n, rfl⟩
    | cons pair pairs ih =>
        obtain ⟨m, hm⟩ := ih (n := pair.2)
        refine ⟨m, ?_⟩
        show (Term.number n :: .operator pair.1 :: .number pair.2 :: _).getLast? = _
        rw [List.getLast?_cons_cons, List.getLast?_cons_cons]
        exact hm
  obtain ⟨m, hm⟩ := hnumbers
  refine ⟨m, ?_⟩
  cases sign with
  | none => exact hm
  | some op =>
      show (Term.operator op :: .number n :: _).getLast? = _
      rw [List.getLast?_cons_cons]
      exact hm

/-- Only the operator in front can be wrong. -/
theorem Defect.eq_leadingFactor {defect : Defect} (h : defect.IsIn (signedTerms sign n pairs)) :
    defect = .leadingFactor := by
  cases defect with
  | doubledOperator =>
      obtain ⟨op, op', hinfix⟩ := h
      have hchain := isChain_signedTerms.infix hinfix
      exact absurd rfl (List.isChain_pair.mp hchain)
  | doubledNumber =>
      obtain ⟨m, m', hinfix⟩ := h
      have hchain := isChain_signedTerms.infix hinfix
      exact absurd rfl (List.isChain_pair.mp hchain)
  | lastOperator =>
      obtain ⟨op, before, hlast⟩ := h
      obtain ⟨m, hm⟩ := @getLast?_signedTerms sign n pairs
      rw [← hlast, List.getLast?_concat] at hm
      cases hm
  | noNumber => exact absurd (List.mem_append_right _ List.mem_cons_self) (h n)
  | leadingFactor => rfl

theorem Defect.leadingFactor_isIn_iff :
    leadingFactor.IsIn (signedTerms sign n pairs) ↔
      ∃ op, sign = some op ∧ op.isMultiplicative = true := by
  cases sign with
  | none =>
      refine iff_of_false ?_ (by simp)
      rintro ⟨op, ⟨rest, hterms⟩, -⟩
      cases hterms
  | some own =>
      constructor
      · rintro ⟨op, ⟨rest, hterms⟩, hop⟩
        cases hterms
        exact ⟨own, rfl, hop⟩
      · rintro ⟨op, hsign, hop⟩
        cases hsign
        exact ⟨own, ⟨_, rfl⟩, hop⟩

theorem IsFormula.exists_signedTerms {terms : List Term} (h : IsFormula terms) :
    ∃ sign n pairs, terms = signedTerms sign n pairs ∧
      ∀ op, sign = some op → op.isMultiplicative = false := by
  obtain ⟨sign, hsign, n, pairs, rfl⟩ := h
  simp only [signTerms, List.mem_cons, List.not_mem_nil, or_false] at hsign
  rcases hsign with rfl | rfl | rfl
  · exact ⟨none, n, pairs, rfl, by simp⟩
  · exact ⟨some .add, n, pairs, rfl, by simp [Operator.isMultiplicative]⟩
  · exact ⟨some .subtract, n, pairs, rfl, by simp [Operator.isMultiplicative]⟩

end

/-! ## Every malformed sequence has a defect -/

theorem Defect.IsIn.cons {terms : List Term} {defect : Defect} (h : defect.IsIn terms)
    (hinner : defect ≠ .noNumber ∧ defect ≠ .leadingFactor) (t : Term) :
    defect.IsIn (t :: terms) := by
  cases defect with
  | doubledOperator =>
      obtain ⟨op, op', hinfix⟩ := h
      exact ⟨op, op', hinfix.trans (List.suffix_cons t terms).isInfix⟩
  | doubledNumber =>
      obtain ⟨m, m', hinfix⟩ := h
      exact ⟨m, m', hinfix.trans (List.suffix_cons t terms).isInfix⟩
  | lastOperator =>
      obtain ⟨op, hsuffix⟩ := h
      exact ⟨op, hsuffix.trans (List.suffix_cons t terms)⟩
  | noNumber => exact absurd rfl hinner.1
  | leadingFactor => exact absurd rfl hinner.2

/-- What cannot follow a number starts with another one, or has a defect of its own. -/
theorem Formula.exists_defect_of_restOfTerms? {terms : List Term}
    (h : restOfTerms? terms = none) (n : Decimal) :
    ∃ defect : Defect, defect.IsIn (.number n :: terms) ∧
      defect ≠ .noNumber ∧ defect ≠ .leadingFactor := by
  induction terms using restOfTerms?.induct generalizing n with
  | case1 => cases h
  | case2 op m terms ih =>
      rw [restOfTerms?_pair, Option.map_eq_none_iff] at h
      obtain ⟨defect, hdefect, hinner⟩ := ih h m
      exact ⟨defect, (hdefect.cons hinner _).cons hinner _, hinner⟩
  | case3 terms hnil hpair =>
      cases terms with
      | nil => exact absurd rfl hnil
      | cons t terms =>
          cases t with
          | number m => exact ⟨.doubledNumber, ⟨n, m, ⟨[], terms, rfl⟩⟩, by decide, by decide⟩
          | operator op =>
              cases terms with
              | nil => exact ⟨.lastOperator, ⟨op, ⟨[.number n], rfl⟩⟩, by decide, by decide⟩
              | cons t' terms =>
                  cases t' with
                  | operator op' =>
                      exact ⟨.doubledOperator, ⟨op, op', ⟨[.number n], terms, rfl⟩⟩, by decide,
                        by decide⟩
                  | number m => exact absurd rfl (hpair op m terms)

theorem Formula.exists_defect_of_startingWith? {m : Decimal} {terms : List Term}
    (h : startingWith? m terms = none) (n : Decimal) :
    ∃ defect : Defect, defect.IsIn (.number n :: terms) ∧
      defect ≠ .noNumber ∧ defect ≠ .leadingFactor := by
  rw [startingWith?_eq, Option.map_eq_none_iff] at h
  exact exists_defect_of_restOfTerms? h n

/-- Terms that are not read have a defect. -/
theorem Formula.exists_defect_of_ofTerms? {terms : List Term} (h : ofTerms? terms = none) :
    ∃ defect : Defect, defect.IsIn terms := by
  match terms with
  | [] => exact ⟨.noNumber, fun n hn => by cases hn⟩
  | .number n :: terms =>
      obtain ⟨defect, hdefect, -⟩ := exists_defect_of_startingWith? h n
      exact ⟨defect, hdefect⟩
  | [.operator op] => exact ⟨.lastOperator, op, List.suffix_rfl⟩
  | .operator op :: .operator op' :: terms =>
      exact ⟨.doubledOperator, op, op', ⟨[], terms, rfl⟩⟩
  | .operator op :: .number n :: terms =>
      cases op with
      | add | subtract =>
          obtain ⟨defect, hdefect, hinner⟩ := exists_defect_of_startingWith? h n
          exact ⟨defect, hdefect.cons hinner _⟩
      | multiply | divide => exact ⟨.leadingFactor, _, ⟨_, rfl⟩, rfl⟩

/-- Terms are malformed exactly when they have a defect. -/
theorem evaluateTerms_eq_malformed_iff_exists_defect {terms : List Term} :
    evaluateTerms terms = .error .malformed ↔ ∃ defect : Defect, defect.IsIn terms := by
  rw [evaluateTerms_eq_malformed_iff]
  constructor
  · intro hnot
    cases hread : Formula.ofTerms? terms with
    | none => exact Formula.exists_defect_of_ofTerms? hread
    | some f => exact absurd (Formula.isFormula_of_ofTerms? hread) hnot
  · rintro ⟨defect, hdefect⟩ hformula
    obtain ⟨sign, n, pairs, rfl, hsign⟩ := hformula.exists_signedTerms
    rw [Defect.eq_leadingFactor hdefect, Defect.leadingFactor_isIn_iff] at hdefect
    obtain ⟨op, hop, hfactor⟩ := hdefect
    rw [hsign op hop] at hfactor
    cases hfactor

/-- A number with an operator in front is malformed exactly if the operator is a factor's. -/
theorem evaluateTerms_signedTerms_eq_malformed_iff {sign : Option Operator} {n : Decimal}
    {pairs : List (Operator × Decimal)} :
    evaluateTerms (signedTerms sign n pairs) = .error .malformed ↔
      ∃ op, sign = some op ∧ op.isMultiplicative = true := by
  rw [evaluateTerms_eq_malformed_iff_exists_defect, ← Defect.leadingFactor_isIn_iff]
  constructor
  · rintro ⟨defect, hdefect⟩
    rwa [Defect.eq_leadingFactor hdefect] at hdefect
  · intro hfactor
    exact ⟨_, hfactor⟩

end DesignTokens
