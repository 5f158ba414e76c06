import DesignTokens.Proofs.Evaluation.Memo
import DesignTokens.Proofs.Lookup.Filling
import Mathlib.Control.Monad.Basic

set_option autoImplicit false

/-! # Errors of looking up

A reference that is missing and a raw value that cannot be read are errors of building a
lookup table and of evaluating against one. `evaluate_of_fills` says that a built table
leaves none of them to evaluation: what its expressions reach is stored and can be read, and
an error of evaluation is a cycle or belongs to a formula.

An error of an expression is one of its references' or its own formula's
(`valueWith_eq_error`), so the errors of a set of references that refer to each other only
can be found out reference by reference (`resolveAfresh_isLookup`).
-/

namespace DesignTokens

/-- An error of looking up a reference or reading its raw value. -/
def EvalError.isLookup : EvalError → Bool
  | unreadable _ => true
  | referenceNotFound _ => true
  | _ => false

theorem EvalError.isLookup_ofFormula (formula : String) (error : FormulaError) :
    (ofFormula formula error).isLookup = false := by
  cases error <;> rfl

theorem assemble_eq_error {numeric : Bool} {parts : List Part} {error : EvalError}
    (h : assemble numeric parts = .error error) :
    ∃ formula cause, error = .ofFormula formula cause := by
  unfold assemble at h
  split at h
  · split at h
    · cases h
    · cases h
      exact ⟨_, _, rfl⟩
  · cases h

/-- Parts that make no value are no error of looking up. -/
theorem isLookup_of_assemble {numeric : Bool} {parts : List Part} {error : EvalError}
    (h : assemble numeric parts = .error error) : error.isLookup = false := by
  obtain ⟨formula, cause, rfl⟩ := assemble_eq_error h
  exact EvalError.isLookup_ofFormula formula cause

theorem Part.mapM_ofAtom_eq_error {f : String → Except EvalError Evaluated} {atoms : List Atom}
    {error : EvalError} (h : atoms.mapM (ofAtom f) = .error error) :
    ∃ r ∈ atoms.filterMap Atom.reference?, f r = .error error := by
  induction atoms with
  | nil => cases h
  | cons atom atoms ih =>
      rcases mapM_ofAtom_cons_eq_error.mp h with hatom | ⟨-, hrest⟩
      · obtain ⟨r, rfl, hr⟩ := ofAtom_eq_error hatom
        exact ⟨r, List.mem_cons_self, hr⟩
      · obtain ⟨r, hmem, hr⟩ := ih hrest
        exact ⟨r, mem_references_cons hmem, hr⟩

/-- An error of an expression is that of a reference in it, or its parts make no value. -/
theorem valueWith_eq_error {f : String → Except EvalError Evaluated} {e : Expression}
    {error : EvalError} (h : valueWith f e = .error error) :
    (∃ r ∈ e.references, f r = .error error) ∨
      ∃ parts, e.atoms.mapM (Part.ofAtom f) = .ok parts ∧
        assemble e.numeric parts = .error error := by
  rw [valueWith] at h
  cases hparts : e.atoms.mapM (Part.ofAtom f) with
  | error e =>
      rw [hparts] at h
      cases h
      exact Or.inl (Part.mapM_ofAtom_eq_error hparts)
  | ok parts =>
      rw [hparts] at h
      exact Or.inr ⟨parts, rfl, h⟩

/-- Where references can be read and refer to each other only, following them never fails to
find or to read one. -/
theorem resolveAfresh_isLookup {table : LookupTable} {limit : Option Nat} {S : String → Prop}
    (hclosed : table.IsClosed S) (hreadable : ∀ r, S r → table.IsReadable r)
    {chain : List String} {reference : String} {error : EvalError} (hmem : S reference)
    (h : resolveAfresh table limit chain reference = .error error) : error.isLookup = false := by
  induction chain, reference using resolveAfresh.induct table limit generalizing error with
  | case1 chain reference hcycle =>
      rw [resolveAfresh_cycle hcycle] at h
      cases h
      rfl
  | case2 chain reference hopen hget =>
      obtain ⟨raw, e, hget', -⟩ := hreadable reference hmem
      rw [hget] at hget'
      cases hget'
  | case3 chain reference hopen raw hget cause hparse =>
      obtain ⟨raw', e, hget', hparse'⟩ := hreadable reference hmem
      rw [hget, Option.some.injEq] at hget'
      subst hget'
      rw [hparse] at hparse'
      cases hparse'
  | case4 chain reference hopen raw hget e hparse hnew hless ih =>
      rw [resolveAfresh_parsed (Bool.eq_false_iff.mpr hopen) hget hparse] at h
      rcases valueWith_eq_error h with ⟨r, hr, herror⟩ | ⟨parts, -, hassemble⟩
      · exact ih r (hclosed hmem ⟨raw, e, hget, hparse, hr⟩) herror
      · exact isLookup_of_assemble hassemble

/-- Where everything an expression reaches can be read, its evaluation never fails to find or
to read a reference. -/
theorem evaluate_isLookup {table : LookupTable} {e : Expression} {error : EvalError}
    (hreadable : ∀ r, table.Reaches e r → table.IsReadable r)
    (h : (evaluate table e).result = .error error) : error.isLookup = false := by
  -- the memo may be left out, except where evaluation ends in a cycle
  rcases evaluate_eq_or_cycle table e with heq | ⟨⟨chain, hcycle⟩, -⟩
  · rw [heq, evaluateAfresh] at h
    rcases valueWith_eq_error h with ⟨r, hr, herror⟩ | ⟨parts, -, hassemble⟩
    · exact resolveAfresh_isLookup (table.isClosed_reaches e) hreadable
        (LookupTable.reaches_of_mem hr) herror
    · exact isLookup_of_assemble hassemble
  · rw [hcycle] at h
    cases h
    rfl

/-- **Missing references and unreadable values are found when a table is built.** If `build`
gives a table, or filling one ends with it whatever the source answered, then everything that
one of the expressions reaches is stored and can be read, and evaluating the expression never
ends with a reference that is not found or a value that cannot be read. -/
theorem evaluate_of_fills {expressions : List Expression} {table : LookupTable} {e : Expression}
    (hbuilt : (∃ source, (LookupTable.build expressions source).outcome.result = .ok table) ∨
      ∃ answers, table.Fills answers expressions)
    (he : e ∈ expressions) :
    (∀ r, table.Reaches e r →
      ∃ raw e', table.get? r = some raw ∧ Expression.parse raw = .ok e') ∧
    (∀ r, (evaluate table e).result ≠ .error (.referenceNotFound r)) ∧
    (∀ cause, (evaluate table e).result ≠ .error (.unreadable cause)) := by
  have hfills : ∃ answers, LookupTable.Fills answers expressions table := by
    rcases hbuilt with ⟨source, hbuild⟩ | hfills
    · exact ⟨source.Answers, LookupTable.build_eq_ok_iff.mp hbuild⟩
    · exact hfills
  obtain ⟨answers, hfills⟩ := hfills
  have hreadable : ∀ r, table.Reaches e r → table.IsReadable r := fun r hr =>
    hfills.isReadable he hr
  refine ⟨hreadable, ?_, ?_⟩
  · intro r hr
    have hlookup := evaluate_isLookup hreadable hr
    cases hlookup
  · intro cause hcause
    have hlookup := evaluate_isLookup hreadable hcause
    cases hlookup

/-- Two references that lead to each other, one of them also to itself. -/
def cyclicSource : Source := .ofList [("a", "{b}/{b}"), ("b", "{a}+{b}")]

/-- `-{a}` -/
def cyclicExpression : Expression := ⟨"-{a}", [.operator .subtract, .reference "{a}"], true⟩

/-- What building finds in `cyclicSource`. -/
def cyclicTable : LookupTable := ⟨[("{a}", "{b}/{b}"), ("{b}", "{a}+{b}")]⟩

theorem build_cyclicTable :
    (LookupTable.build [cyclicExpression] cyclicSource).outcome.result = .ok cyclicTable := by
  have hparseA : Expression.parse "{b}/{b}" =
      .ok ⟨"{b}/{b}", [.reference "{b}", .operator .divide, .reference "{b}"], true⟩ := by
    decide +kernel
  have hparseB : Expression.parse "{a}+{b}" =
      .ok ⟨"{a}+{b}", [.reference "{a}", .operator .add, .reference "{b}"], true⟩ := by
    decide +kernel
  have hstoreA : Filling.Step cyclicSource.Answers (.start [cyclicExpression])
      ⟨⟨[("{a}", "{b}/{b}")]⟩, ["{b}", "{b}"]⟩ :=
    .store (by decide) (by decide) hparseA
  have hstoreB : Filling.Step cyclicSource.Answers ⟨⟨[("{a}", "{b}/{b}")]⟩, ["{b}", "{b}"]⟩
      ⟨cyclicTable, ["{b}", "{b}"]⟩ :=
    .store (by decide) (by decide) hparseB
  have hskip : cyclicTable.contains "{b}" = true := by decide
  rw [LookupTable.build_eq_ok_iff]
  exact .head hstoreA (.head hstoreB (.head (.skip hskip) (.single (.skip hskip))))

theorem evaluate_cyclicExpression :
    (LookupTable.build [cyclicExpression] cyclicSource).outcome.result = .ok cyclicTable ∧
      (∀ r, cyclicTable.Reaches cyclicExpression r →
        ∃ raw e', cyclicTable.get? r = some raw ∧ Expression.parse raw = .ok e') ∧
      (∀ r, (evaluate cyclicTable cyclicExpression).result ≠ .error (.referenceNotFound r)) ∧
      (∀ cause, (evaluate cyclicTable cyclicExpression).result ≠ .error (.unreadable cause)) :=
  ⟨build_cyclicTable,
    evaluate_of_fills (Or.inl ⟨cyclicSource, build_cyclicTable⟩) (List.mem_singleton.mpr rfl)⟩

end DesignTokens
