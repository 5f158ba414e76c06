import DesignTokens.Evaluation.Evaluator
import DesignTokens.Proofs.Lookup.Graph

set_option autoImplicit false

/-! # Evaluation sees what it reaches

Two tables that hold the same values for everything an expression reaches give it the same
evaluation, with the same events and the same result, be it a value or an error
(`evaluate_of_reaches`). The order of their entries and whatever else they hold make no
difference.
-/

namespace DesignTokens

/-- Two tables hold the same values for the references of a set. -/
def LookupTable.AgreesOn (table table' : LookupTable) (S : String → Prop) : Prop :=
  ∀ r, S r → table.get? r = table'.get? r

section

variable {resolve resolve' : Memo → String → Traced EvalError (Evaluated × Memo)}

/-- Only the references of the atoms are resolved. -/
theorem resolveAtoms_congr {atoms : List Atom}
    (h : ∀ r ∈ atoms.filterMap Atom.reference?, ∀ memo, resolve memo r = resolve' memo r)
    (memo : Memo) : resolveAtoms resolve memo atoms = resolveAtoms resolve' memo atoms := by
  induction atoms generalizing memo with
  | nil => rfl
  | cons atom atoms ih =>
      cases atom with
      | operator op => rw [resolveAtoms, resolveAtoms, ih h]
      | number value unit text => rw [resolveAtoms, resolveAtoms, ih h]
      | verbatim text => rw [resolveAtoms, resolveAtoms, ih h]
      | reference r =>
          have hatoms := fun memo => ih (fun r' hr' => h r' (List.mem_cons_of_mem r hr')) memo
          rw [resolveAtoms, resolveAtoms, h r List.mem_cons_self]
          simp only [hatoms]

theorem evaluateWith_congr {e : Expression}
    (h : ∀ r ∈ e.references, ∀ memo, resolve memo r = resolve' memo r) (depth : Nat)
    (memo : Memo) : evaluateWith resolve depth memo e = evaluateWith resolve' depth memo e := by
  rw [evaluateWith, evaluateWith, resolveAtoms_congr h]

end

section

variable {table table' : LookupTable} {S : String → Prop}

theorem resolve_of_agreesOn (hclosed : table.IsClosed S) (hagree : table.AgreesOn table' S)
    (room : Nat) (chain : List String) (memo : Memo) {reference : String} (hmem : S reference) :
    resolve table room chain memo reference = resolve table' room chain memo reference := by
  induction room generalizing chain memo reference with
  | zero => rfl
  | succ room ih =>
      rw [resolve, resolve, ← hagree reference hmem]
      by_cases hchain : chain.contains reference = true
      · rw [if_pos hchain, if_pos hchain]
      rw [if_neg hchain, if_neg hchain]
      cases memo.lookup reference with
      | some value => rfl
      | none =>
          cases hget : table.get? reference with
          | none => rfl
          | some raw =>
              refine Traced.bind_congr_result fun e he => ?_
              have hparse : Expression.parse raw = .ok e := by
                rw [← Expression.result_read]
                exact Traced.result_mapError_eq_ok.mp he
              have hnested : ∀ r ∈ e.references, ∀ memo,
                  resolve table room (chain ++ [reference]) memo r =
                    resolve table' room (chain ++ [reference]) memo r := by
                intro r hr memo
                exact ih _ memo (hclosed hmem ⟨raw, e, hget, hparse, hr⟩)
              simp only [evaluateWith_congr hnested]

theorem evaluate_of_agreesOn (hclosed : table.IsClosed S) (hagree : table.AgreesOn table' S)
    {e : Expression} (hstart : ∀ r ∈ e.references, S r) :
    evaluate table e = evaluate table' e := by
  have hresolve : ∀ r ∈ e.references, ∀ memo,
      resolve table maxReferenceDepth [] memo r = resolve table' maxReferenceDepth [] memo r :=
    fun r hr memo => resolve_of_agreesOn hclosed hagree maxReferenceDepth [] memo (hstart r hr)
  rw [evaluate, evaluate, evaluateWith_congr hresolve]

/-- Evaluation depends on nothing but the values of what the expression reaches. -/
theorem evaluate_of_reaches {e : Expression}
    (h : ∀ r, table.Reaches e r → table.get? r = table'.get? r) :
    evaluate table e = evaluate table' e :=
  evaluate_of_agreesOn (table.isClosed_reaches e) h fun _ hr => LookupTable.reaches_of_mem hr

end

end DesignTokens
