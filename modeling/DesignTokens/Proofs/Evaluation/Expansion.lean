import DesignTokens.Proofs.Evaluation.Cycles

set_option autoImplicit false

/-! # Kinds and units of values

Whether an expression is worth a number or a text, and which unit a number has, depends on
everything its references lead to. `LookupTable.Expands` writes an expression out: each
reference gives way to the atoms of its value, written out in turn, and what remains are the
atoms that are no references, from left to right. An expression with a value has exactly one
such expansion.

A value is a number exactly if no expression that is met on the way is empty or holds
verbatim text, and its unit is the first one in the expansion (`evaluate_isNumber_and_unit`).
Evaluation sees neither the expansion nor all that is reached: it combines the kinds and
units of the parts of one expression at a time, and takes those of a reference that was met
before from its memo. So both facts are shown of one expression first, given the values of
its references, and then along the references that are followed
(`resolveAfresh_induction`).
-/

namespace DesignTokens

/-! ## Expansions -/

/-- The unit of an atom, if it has one. -/
def Atom.unit? : Atom → Option String
  | number _ unit _ => Part.unitOf unit
  | _ => none

/-- There are atoms, and none of them is verbatim text. -/
def Expression.IsArithmetic (e : Expression) : Prop :=
  e.atoms ≠ [] ∧ ∀ content, Atom.verbatim content ∉ e.atoms

namespace Expression

theorem isFormula_iff {atoms : List Atom} :
    isFormula atoms = true ↔ atoms ≠ [] ∧ ∀ content, Atom.verbatim content ∉ atoms := by
  have hverbatim : atoms.any Atom.isVerbatim = false ↔
      ∀ content, Atom.verbatim content ∉ atoms := by
    rw [List.any_eq_false]
    constructor
    · intro h content hmem
      exact h _ hmem rfl
    · intro h atom hmem hatom
      cases atom with
      | verbatim content => exact h content hmem
      | operator _ | number _ _ _ | reference _ => cases hatom
  rw [isFormula, Bool.and_eq_true, Bool.not_eq_true', Bool.not_eq_true', hverbatim,
    List.isEmpty_eq_false_iff]

/-- An expression that was read is numeric as far as its own atoms tell. -/
theorem numeric_of_parse {text : String} {e : Expression} (h : parse text = .ok e) :
    e.numeric = true ↔ e.IsArithmetic := by
  unfold parse at h
  split at h
  · cases h
  · cases h
    exact isFormula_iff

end Expression

namespace LookupTable

/-- The value of a reference is stored, and has atoms none of which is verbatim text. -/
def IsArithmeticAt (table : LookupTable) (r : String) : Prop :=
  ∃ raw e, table.get? r = some raw ∧ Expression.parse raw = .ok e ∧ e.IsArithmetic

/-- Writing out some atoms: a reference is replaced by what the atoms of its value are
written out as, and any other atom stays. -/
inductive Expands (table : LookupTable) : List Atom → List Atom → Prop
  | nil : Expands table [] []
  | leaf {atom : Atom} {atoms leaves : List Atom} (hatom : atom.reference? = none)
      (hrest : Expands table atoms leaves) : Expands table (atom :: atoms) (atom :: leaves)
  | reference {r raw : String} {e : Expression} {atoms inner leaves : List Atom}
      (hget : table.get? r = some raw) (hparse : Expression.parse raw = .ok e)
      (hinner : Expands table e.atoms inner) (hrest : Expands table atoms leaves) :
      Expands table (.reference r :: atoms) (inner ++ leaves)

/-- Atoms are written out in one way only. -/
theorem Expands.unique {table : LookupTable} {atoms leaves leaves' : List Atom}
    (h : table.Expands atoms leaves) (h' : table.Expands atoms leaves') : leaves' = leaves := by
  induction h generalizing leaves' with
  | nil =>
      cases h'
      rfl
  | leaf hatom _ ih =>
      cases h' with
      | leaf _ hrest => rw [ih hrest]
      | reference _ _ _ _ => cases hatom
  | reference hget hparse _ _ ihInner ihRest =>
      cases h' with
      | leaf hatom _ => cases hatom
      | reference hget' hparse' hinner hrest =>
          rw [hget, Option.some.injEq] at hget'
          subst hget'
          rw [hparse, Except.ok.injEq] at hparse'
          subst hparse'
          rw [ihInner hinner, ihRest hrest]

end LookupTable

/-! ## One expression -/

theorem assemble_eq_ok {numeric : Bool} {parts : List Part} {value : Evaluated}
    (h : assemble numeric parts = .ok value) :
    (value.isNumber = true ↔ numeric = true ∧ parts.any Part.isText = false) ∧
      (value.isNumber = true → value.unit? = parts.findSome? Part.unit?) := by
  unfold assemble at h
  split at h
  · rename_i hnumeric
    rw [Bool.and_eq_true, Bool.not_eq_true'] at hnumeric
    split at h
    · cases h
      exact ⟨iff_of_true rfl hnumeric, fun _ => rfl⟩
    · cases h
  · rename_i hnot
    rw [Bool.and_eq_true, Bool.not_eq_true'] at hnot
    cases h
    exact ⟨iff_of_false Bool.false_ne_true hnot, fun hnumber => absurd hnumber Bool.false_ne_true⟩

namespace Part

variable {f : String → Except EvalError Evaluated}

theorem isText_ofEvaluated (value : Evaluated) :
    (ofEvaluated value).isText = !value.isNumber := by
  cases value <;> rfl

theorem unit?_ofEvaluated (value : Evaluated) : (ofEvaluated value).unit? = value.unit? := by
  cases value <;> rfl

/-- No part is text if no atom is verbatim text and all references are worth numbers. -/
theorem any_isText_eq_false_iff {atoms : List Atom} {parts : List Part}
    (h : atoms.mapM (ofAtom f) = .ok parts) :
    parts.any isText = false ↔ (∀ content, Atom.verbatim content ∉ atoms) ∧
      ∀ r ∈ atoms.filterMap Atom.reference?, ∀ v, f r = .ok v → v.isNumber = true := by
  induction atoms generalizing parts with
  | nil =>
      cases h
      simp
  | cons atom atoms ih =>
      obtain ⟨part, rest, hatom, hrest, rfl⟩ := mapM_ofAtom_cons_eq_ok.mp h
      rw [List.any_cons, Bool.or_eq_false_iff, ih hrest]
      cases atom with
      | operator op =>
          cases hatom
          simp [isText, Atom.reference?]
      | number value unit text =>
          cases hatom
          simp [isText, Atom.reference?]
      | verbatim text =>
          cases hatom
          exact iff_of_false (by simp [isText]) fun hnone => hnone.1 text List.mem_cons_self
      | reference r =>
          obtain ⟨value, hvalue⟩ := exists_of_ofAtom hatom
          rw [ofAtom, hvalue] at hatom
          cases hatom
          have hown : (∀ v, f r = .ok v → v.isNumber = true) ↔ value.isNumber = true := by
            simp [hvalue]
          have hrefs : (Atom.reference r :: atoms).filterMap Atom.reference? =
              r :: atoms.filterMap Atom.reference? := rfl
          rw [isText_ofEvaluated, Bool.not_eq_false', hrefs, List.forall_mem_cons, hown]
          simp only [List.mem_cons, reduceCtorEq, false_or, and_left_comm]

end Part

/-- The atoms of a reference's value can be written out, and the first unit among them is that
of the given value, if this is a number. -/
def LookupTable.IsWorth (table : LookupTable) (r : String) (value : Evaluated) : Prop :=
  ∃ raw e leaves, table.get? r = some raw ∧ Expression.parse raw = .ok e ∧
    table.Expands e.atoms leaves ∧
    (value.isNumber = true → value.unit? = leaves.findSome? Atom.unit?)

namespace Part

variable {table : LookupTable} {f : String → Except EvalError Evaluated}

/-- Where no part is text, the first unit of the parts is the first one in the expansion. -/
theorem exists_expands {atoms : List Atom} {parts : List Part}
    (hrefs : ∀ r v, f r = .ok v → table.IsWorth r v) (h : atoms.mapM (ofAtom f) = .ok parts) :
    ∃ leaves, table.Expands atoms leaves ∧
      (parts.any isText = false → parts.findSome? unit? = leaves.findSome? Atom.unit?) := by
  induction atoms generalizing parts with
  | nil =>
      cases h
      exact ⟨[], .nil, fun _ => rfl⟩
  | cons atom atoms ih =>
      obtain ⟨part, rest, hatom, hrest, rfl⟩ := mapM_ofAtom_cons_eq_ok.mp h
      obtain ⟨leaves, hexpands, hunit⟩ := ih hrest
      rw [List.any_cons, Bool.or_eq_false_iff]
      cases hreference : atom.reference? with
      | none =>
          have hsame : part.unit? = atom.unit? := by
            cases atom with
            | operator _ | number _ _ _ | verbatim _ =>
                cases hatom
                rfl
            | reference r => cases hreference
          refine ⟨atom :: leaves, .leaf hreference hexpands, fun hnumbers => ?_⟩
          rw [List.findSome?_cons, List.findSome?_cons, hsame, hunit hnumbers.2]
      | some r =>
          have hatom' : atom = .reference r := by
            cases atom <;> cases hreference
            rfl
          subst hatom'
          obtain ⟨value, hvalue⟩ := exists_of_ofAtom hatom
          rw [ofAtom, hvalue] at hatom
          cases hatom
          -- the reference has the first unit of its own expansion, which stands in front
          obtain ⟨raw, e, inner, hget, hparse, hinner, hworth⟩ := hrefs r value hvalue
          refine ⟨inner ++ leaves, .reference hget hparse hinner hexpands, fun hnumbers => ?_⟩
          rw [isText_ofEvaluated, Bool.not_eq_false'] at hnumbers
          rw [List.findSome?_append, ← hworth hnumbers.1, ← hunit hnumbers.2, List.findSome?_cons,
            unit?_ofEvaluated]
          cases value.unit? <;> rfl

end Part

section

variable {table : LookupTable} {f : String → Except EvalError Evaluated} {e : Expression}
  {value : Evaluated}

/-- The parts of an expression with a value. -/
theorem valueWith_eq_ok (h : valueWith f e = .ok value) :
    ∃ parts, e.atoms.mapM (Part.ofAtom f) = .ok parts ∧ assemble e.numeric parts = .ok value :=
  except_bind_eq_ok_iff.mp h

/-- An expression is worth a number if it is arithmetic and all its references are worth
numbers. -/
theorem isNumber_of_valueWith_iff (hnumeric : e.numeric = true ↔ e.IsArithmetic)
    (h : valueWith f e = .ok value) :
    value.isNumber = true ↔ e.IsArithmetic ∧
      ∀ r ∈ e.references, ∀ v, f r = .ok v → v.isNumber = true := by
  obtain ⟨parts, hparts, hassemble⟩ := valueWith_eq_ok h
  rw [(assemble_eq_ok hassemble).1, hnumeric, Part.any_isText_eq_false_iff hparts]
  constructor
  · rintro ⟨harithmetic, -, hrefs⟩
    exact ⟨harithmetic, hrefs⟩
  · rintro ⟨harithmetic, hrefs⟩
    exact ⟨harithmetic, harithmetic.2, hrefs⟩

/-- The unit of an expression is the first one in its expansion. -/
theorem exists_expands_of_valueWith (hrefs : ∀ r v, f r = .ok v → table.IsWorth r v)
    (h : valueWith f e = .ok value) :
    ∃ leaves, table.Expands e.atoms leaves ∧
      (value.isNumber = true → value.unit? = leaves.findSome? Atom.unit?) := by
  obtain ⟨parts, hparts, hassemble⟩ := valueWith_eq_ok h
  obtain ⟨leaves, hexpands, hunit⟩ := Part.exists_expands hrefs hparts
  obtain ⟨hkind, hfirst⟩ := assemble_eq_ok hassemble
  refine ⟨leaves, hexpands, fun hnumber => ?_⟩
  rw [hfirst hnumber, hunit (hkind.mp hnumber).2]

end

/-! ## All that is followed -/

section

variable {table : LookupTable} {chain : List String} {reference : String} {value : Evaluated}

/-- A reference is worth a number if everything it leads to is arithmetic. -/
theorem isNumber_of_resolveAfresh_iff
    (h : resolveAfresh table none chain reference = .ok value) :
    value.isNumber = true ↔
      ∀ r, Relation.ReflTransGen table.Refers reference r → table.IsArithmeticAt r := by
  refine resolveAfresh_induction (fun chain reference raw e value _ hget hparse h ih => ?_) h
  rw [isNumber_of_valueWith_iff (Expression.numeric_of_parse hparse) h]
  -- what a reference leads to is itself, or is led to by a reference in its value
  constructor
  · rintro ⟨harithmetic, hrefs⟩ r hr
    rcases hr.cases_head with rfl | ⟨next, hrefers, hr⟩
    · exact ⟨raw, e, hget, hparse, harithmetic⟩
    · have hmem := (LookupTable.refers_iff hget hparse).mp hrefers
      obtain ⟨v, hv⟩ := exists_of_valueWith h next hmem
      exact (ih next v hv).mp (hrefs next hmem v hv) r hr
  · intro hall
    obtain ⟨raw', e', hget', hparse', harithmetic⟩ := hall reference .refl
    rw [hget, Option.some.injEq] at hget'
    subst hget'
    rw [hparse, Except.ok.injEq] at hparse'
    subst hparse'
    refine ⟨harithmetic, fun next hmem v hv => (ih next v hv).mpr fun r hr => hall r ?_⟩
    exact .head ((LookupTable.refers_iff hget hparse).mpr hmem) hr

/-- The unit of a reference is the first one in its expansion. -/
theorem isWorth_of_resolveAfresh (h : resolveAfresh table none chain reference = .ok value) :
    table.IsWorth reference value := by
  refine resolveAfresh_induction (fun chain reference raw e value _ hget hparse h ih => ?_) h
  obtain ⟨leaves, hexpands, hunit⟩ := exists_expands_of_valueWith ih h
  exact ⟨raw, e, leaves, hget, hparse, hexpands, hunit⟩

end

/-- **The whole chain of references decides on kind and unit.** Take an expression that was
read from a text and has a value. The value is a number exactly if the expression and
everything it reaches has atoms, and no verbatim text among them. A text has no unit. The
expression has exactly one expansion, and the unit of a number is the first unit in it. -/
theorem evaluate_isNumber_and_unit {table : LookupTable} {text : String} {e : Expression}
    {value : Evaluated} (hparse : Expression.parse text = .ok e)
    (h : (evaluate table e).result = .ok value) :
    (value.isNumber = true ↔
      e.IsArithmetic ∧ ∀ r, table.Reaches e r → table.IsArithmeticAt r) ∧
    (value.isNumber = false → value.unit? = none) ∧
    ∃ leaves, table.Expands e.atoms leaves ∧
      (∀ leaves', table.Expands e.atoms leaves' → leaves' = leaves) ∧
      (value.isNumber = true → value.unit? = leaves.findSome? Atom.unit?) := by
  -- the memo makes no difference to a value
  have hafresh := evaluateAfresh_of_evaluate h
  refine ⟨?_, ?_, ?_⟩
  · rw [isNumber_of_valueWith_iff (Expression.numeric_of_parse hparse) hafresh]
    refine and_congr_right fun _ => ?_
    constructor
    · rintro hrefs r ⟨first, hmem, hpath⟩
      obtain ⟨v, hv⟩ := exists_of_valueWith hafresh first hmem
      exact (isNumber_of_resolveAfresh_iff hv).mp (hrefs first hmem v hv) r hpath
    · intro hall first hmem v hv
      exact (isNumber_of_resolveAfresh_iff hv).mpr fun r hr => hall r ⟨first, hmem, hr⟩
  · intro htext
    cases value with
    | number _ _ => cases htext
    | text _ => rfl
  · obtain ⟨leaves, hexpands, hunit⟩ :=
      exists_expands_of_valueWith (fun r v hv => isWorth_of_resolveAfresh hv) hafresh
    exact ⟨leaves, hexpands, fun _ h' => hexpands.unique h', hunit⟩

theorem evaluate_isNumber_and_unit_shared :
    Expression.parse "{a}-{d}" = .ok sharedExpression ∧
      (evaluate sharedTable sharedExpression).result =
        .ok (.number ⟨7, 0, by decide, by decide⟩ (some "px")) ∧
      (∀ r, sharedTable.Reaches sharedExpression r → sharedTable.IsArithmeticAt r) ∧
      ∃ leaves, sharedTable.Expands sharedExpression.atoms leaves ∧
        leaves.findSome? Atom.unit? = some "px" := by
  have hparse : Expression.parse "{a}-{d}" = .ok sharedExpression := by decide +kernel
  have hvalue : (evaluate sharedTable sharedExpression).result =
      .ok (.number ⟨7, 0, by decide, by decide⟩ (some "px")) := by
    decide +kernel
  obtain ⟨hkind, -, leaves, hexpands, -, hunit⟩ := evaluate_isNumber_and_unit hparse hvalue
  exact ⟨hparse, hvalue, (hkind.mp rfl).2, leaves, hexpands, (hunit rfl).symm⟩

end DesignTokens
