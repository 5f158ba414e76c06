import DesignTokens.Evaluation.Evaluator
import DesignTokens.Proofs.Lookup.Entries
import DesignTokens.Proofs.Lookup.Graph

set_option autoImplicit false

/-! # Evaluation without a memo

`evaluateAfresh` is evaluation that remembers nothing: every occurrence of a reference is
looked up, read and evaluated again. A chain of references may grow up to a limit, or
without one; a reference that is met while it is being evaluated always ends the
evaluation. Without a limit the recursion ends because every reference of the chain is one
fewer of the stored references that may still be entered.

Two facts relate these evaluations. A limit changes a result into a cycle or not at all
(`resolveAfresh_eq_or_cycle`). The value of a reference does not depend on the chain it is
met below, as long as the chain holds none of the references the value needs
(`resolveAfresh_of_chain`).
-/

namespace DesignTokens

/-! ## Values of expressions, given the values of references -/

/-- What an atom becomes when `resolve` gives the values of references. -/
def Part.ofAtom (resolve : String → Except EvalError Evaluated) : Atom → Except EvalError Part
  | .operator op => .ok (.operator op)
  | .number value unit _ => .ok (.number value (unitOf unit))
  | .verbatim content => .ok (.text content)
  | .reference path => (resolve path).map ofEvaluated

/-- The value of an expression when `resolve` gives the values of references. -/
def valueWith (resolve : String → Except EvalError Evaluated) (e : Expression) :
    Except EvalError Evaluated :=
  (e.atoms.mapM (Part.ofAtom resolve)).bind (assemble e.numeric)

/-- A result is the error of a chain that came back to itself or grew too long. -/
def EndsInCycle {α : Type} (x : Except EvalError α) : Prop :=
  ∃ chain, x = .error (.referenceCycle chain)

instance {α : Type} : (x : Except EvalError α) → Decidable (EndsInCycle x)
  | .error (.referenceCycle chain) => isTrue ⟨chain, rfl⟩
  | .error (.unreadable _) => isFalse (by rintro ⟨_, h⟩; cases h)
  | .error (.referenceNotFound _) => isFalse (by rintro ⟨_, h⟩; cases h)
  | .error (.malformedFormula _) => isFalse (by rintro ⟨_, h⟩; cases h)
  | .error (.divisionByZero _) => isFalse (by rintro ⟨_, h⟩; cases h)
  | .error (.overflow _) => isFalse (by rintro ⟨_, h⟩; cases h)
  | .ok _ => isFalse (by rintro ⟨_, h⟩; cases h)

theorem EndsInCycle.bind {α β : Type} {x : Except EvalError α} (h : EndsInCycle x)
    (f : α → Except EvalError β) : EndsInCycle (x.bind f) := by
  obtain ⟨chain, rfl⟩ := h
  exact ⟨chain, rfl⟩

theorem EndsInCycle.map {α β : Type} {x : Except EvalError α} (h : EndsInCycle x) (f : α → β) :
    EndsInCycle (x.map f) := by
  obtain ⟨chain, rfl⟩ := h
  exact ⟨chain, rfl⟩

namespace Part

variable {f g : String → Except EvalError Evaluated}

theorem mapM_ofAtom_cons (f : String → Except EvalError Evaluated) (atom : Atom)
    (atoms : List Atom) :
    (atom :: atoms).mapM (ofAtom f) =
      (ofAtom f atom).bind fun part => (atoms.mapM (ofAtom f)).map (part :: ·) := by
  rw [List.mapM_cons]
  cases ofAtom f atom with
  | error e => rfl
  | ok part => cases atoms.mapM (ofAtom f) <;> rfl

theorem bind_ofAtom_reference {α : Type} (f : String → Except EvalError Evaluated)
    (reference : String) (next : Part → Except EvalError α) :
    (ofAtom f (.reference reference)).bind next =
      (f reference).bind fun value => next (ofEvaluated value) := by
  rw [ofAtom]
  cases f reference <;> rfl

/-- If the values of references agree or end in a cycle, so do the parts of atoms. -/
theorem ofAtom_eq_or_cycle (h : ∀ r, f r = g r ∨ EndsInCycle (f r)) (atom : Atom) :
    ofAtom f atom = ofAtom g atom ∨ EndsInCycle (ofAtom f atom) := by
  cases atom with
  | operator op => exact Or.inl rfl
  | number value unit text => exact Or.inl rfl
  | verbatim text => exact Or.inl rfl
  | reference r =>
      rcases h r with heq | hcycle
      · exact Or.inl (by rw [ofAtom, ofAtom, heq])
      · exact Or.inr (hcycle.map _)

theorem mapM_ofAtom_eq_or_cycle (h : ∀ r, f r = g r ∨ EndsInCycle (f r)) (atoms : List Atom) :
    atoms.mapM (ofAtom f) = atoms.mapM (ofAtom g) ∨ EndsInCycle (atoms.mapM (ofAtom f)) := by
  induction atoms with
  | nil => exact Or.inl rfl
  | cons atom atoms ih =>
      rw [mapM_ofAtom_cons, mapM_ofAtom_cons]
      rcases ofAtom_eq_or_cycle h atom with heq | hcycle
      · rw [← heq]
        cases ofAtom f atom with
        | error e => exact Or.inl rfl
        | ok part =>
            rcases ih with ih | ih
            · exact Or.inl (by rw [ih])
            · exact Or.inr (ih.map _)
      · exact Or.inr (hcycle.bind _)

theorem mem_references_cons {atom : Atom} {atoms : List Atom} {r : String}
    (h : r ∈ atoms.filterMap Atom.reference?) : r ∈ (atom :: atoms).filterMap Atom.reference? := by
  rw [List.filterMap_cons]
  split
  · exact h
  · exact List.mem_cons_of_mem _ h

theorem mapM_ofAtom_cons_eq_ok {atom : Atom} {atoms : List Atom} {parts : List Part} :
    (atom :: atoms).mapM (ofAtom f) = .ok parts ↔
      ∃ part rest, ofAtom f atom = .ok part ∧ atoms.mapM (ofAtom f) = .ok rest ∧
        parts = part :: rest := by
  rw [mapM_ofAtom_cons]
  cases ofAtom f atom with
  | error e => simp [Except.bind]
  | ok part => cases atoms.mapM (ofAtom f) <;> simp [Except.bind, Except.map, eq_comm]

theorem mapM_ofAtom_cons_eq_error {atom : Atom} {atoms : List Atom} {error : EvalError} :
    (atom :: atoms).mapM (ofAtom f) = .error error ↔
      ofAtom f atom = .error error ∨
        (∃ part, ofAtom f atom = .ok part) ∧ atoms.mapM (ofAtom f) = .error error := by
  rw [mapM_ofAtom_cons]
  cases ofAtom f atom with
  | error e => simp [Except.bind]
  | ok part => cases atoms.mapM (ofAtom f) <;> simp [Except.bind, Except.map]

/-- Only a reference can fail to become a part, and then its value failed. -/
theorem ofAtom_eq_error {atom : Atom} {error : EvalError} (h : ofAtom f atom = .error error) :
    ∃ r, atom = .reference r ∧ f r = .error error := by
  cases atom with
  | operator op => cases h
  | number value unit text => cases h
  | verbatim text => cases h
  | reference r =>
      refine ⟨r, rfl, ?_⟩
      rw [ofAtom] at h
      cases hr : f r with
      | error e =>
          rw [hr] at h
          cases h
          rfl
      | ok value =>
          rw [hr] at h
          cases h

/-- The part of an atom survives a change of the values of other references. -/
theorem ofAtom_of_references {atom : Atom} {part : Part}
    (h : ∀ r, atom = .reference r → ∀ v, f r = .ok v → g r = .ok v)
    (hpart : ofAtom f atom = .ok part) : ofAtom g atom = .ok part := by
  cases atom with
  | operator op => exact hpart
  | number value unit text => exact hpart
  | verbatim text => exact hpart
  | reference r =>
      rw [ofAtom] at hpart ⊢
      cases hr : f r with
      | error e =>
          rw [hr] at hpart
          cases hpart
      | ok v => rw [h r rfl v hr, ← hpart, hr]

theorem mapM_ofAtom_of_references {atoms : List Atom} {parts : List Part}
    (h : ∀ r ∈ atoms.filterMap Atom.reference?, ∀ v, f r = .ok v → g r = .ok v)
    (hparts : atoms.mapM (ofAtom f) = .ok parts) : atoms.mapM (ofAtom g) = .ok parts := by
  induction atoms generalizing parts with
  | nil => exact hparts
  | cons atom atoms ih =>
      obtain ⟨part, rest, hatom, hrest, rfl⟩ := mapM_ofAtom_cons_eq_ok.mp hparts
      refine mapM_ofAtom_cons_eq_ok.mpr ⟨part, rest, ?_, ?_, rfl⟩
      · refine ofAtom_of_references (fun r hr v hv => h r ?_ v hv) hatom
        rw [hr]
        exact List.mem_cons_self
      · exact ih (fun r hr => h r (mem_references_cons hr)) hrest

end Part

theorem valueWith_eq_or_cycle {f g : String → Except EvalError Evaluated}
    (h : ∀ r, f r = g r ∨ EndsInCycle (f r)) (e : Expression) :
    valueWith f e = valueWith g e ∨ EndsInCycle (valueWith f e) := by
  rcases Part.mapM_ofAtom_eq_or_cycle h e.atoms with heq | hcycle
  · exact Or.inl (by rw [valueWith, valueWith, heq])
  · exact Or.inr (hcycle.bind _)

theorem valueWith_of_references {f g : String → Except EvalError Evaluated} {e : Expression}
    {value : Evaluated} (h : ∀ r ∈ e.references, ∀ v, f r = .ok v → g r = .ok v)
    (hvalue : valueWith f e = .ok value) : valueWith g e = .ok value := by
  rw [valueWith] at hvalue ⊢
  cases hparts : e.atoms.mapM (Part.ofAtom f) with
  | error e =>
      rw [hparts] at hvalue
      cases hvalue
  | ok parts =>
      rw [Part.mapM_ofAtom_of_references h hparts, ← hvalue, hparts]

/-! ## The evaluation -/

/-- The entries of a table whose references are not in a chain. -/
def LookupTable.outside (table : LookupTable) (chain : List String) : List (String × String) :=
  table.entries.filter fun entry => !chain.contains entry.1

/-- Entering a stored reference leaves fewer of them. -/
theorem LookupTable.length_outside_lt {table : LookupTable} {chain : List String}
    {reference raw : String} (hnew : chain.contains reference = false)
    (hget : table.get? reference = some raw) :
    (table.outside (chain ++ [reference])).length < (table.outside chain).length := by
  have hmem : (reference, raw) ∈ table.entries := mem_of_lookup_eq_some hget
  -- entering the reference filters its entries out of those outside the chain
  have hfilter : table.outside (chain ++ [reference]) =
      (table.outside chain).filter fun entry => decide (entry.1 ≠ reference) := by
    unfold outside
    rw [List.filter_filter]
    apply List.filter_congr
    intro entry _
    by_cases h : entry.1 = reference <;> simp [h]
  rw [hfilter, List.length_filter_lt_length_iff_exists]
  exact ⟨(reference, raw), by simpa [outside, hmem] using hnew, by simp⟩

/-- Whether a chain may not grow any further. -/
def isFull (limit : Option Nat) (chain : List String) : Bool := limit.any (· ≤ chain.length)

/-- Whether entering a reference below a chain is a cycle: the reference is in the chain, or
the chain may not grow. -/
def closesCycle (limit : Option Nat) (chain : List String) (reference : String) : Bool :=
  chain.contains reference || isFull limit chain

/-- The value of a reference below the references of `chain`. -/
def resolveAfresh (table : LookupTable) (limit : Option Nat) (chain : List String)
    (reference : String) : Except EvalError Evaluated :=
  if hcycle : closesCycle limit chain reference then
    .error (.referenceCycle (chain ++ [reference]))
  else
    match hget : table.get? reference with
    | none => .error (.referenceNotFound reference)
    | some raw =>
      match Expression.parse raw with
      | .error cause => .error (.unreadable cause)
      | .ok e =>
        have hnew : chain.contains reference = false := by
          cases h : chain.contains reference <;> simp_all [closesCycle]
        have := LookupTable.length_outside_lt hnew hget
        valueWith (resolveAfresh table limit (chain ++ [reference])) e
termination_by (table.outside chain).length

/-- The value of an expression. -/
def evaluateAfresh (table : LookupTable) (limit : Option Nat) (e : Expression) :
    Except EvalError Evaluated :=
  valueWith (resolveAfresh table limit []) e

theorem closesCycle_none_of_false {limit : Option Nat} {chain : List String}
    {reference : String} (h : closesCycle limit chain reference = false) :
    closesCycle none chain reference = false := by
  rw [closesCycle, Bool.or_eq_false_iff] at h
  rw [closesCycle, h.1]
  rfl

theorem closesCycle_none_eq_false {chain : List String} {reference : String} :
    closesCycle none chain reference = false ↔ reference ∉ chain := by
  simp [closesCycle, isFull]

section

variable {table : LookupTable} {limit : Option Nat} {chain : List String} {reference : String}

theorem resolveAfresh_cycle (h : closesCycle limit chain reference = true) :
    resolveAfresh table limit chain reference =
      .error (.referenceCycle (chain ++ [reference])) := by
  rw [resolveAfresh, dif_pos h]

theorem resolveAfresh_missing (h : closesCycle limit chain reference = false)
    (hget : table.get? reference = none) :
    resolveAfresh table limit chain reference = .error (.referenceNotFound reference) := by
  rw [resolveAfresh, dif_neg (Bool.eq_false_iff.mp h)]
  split <;> simp_all

theorem resolveAfresh_unreadable {raw : String} {cause : ParseError}
    (h : closesCycle limit chain reference = false) (hget : table.get? reference = some raw)
    (hparse : Expression.parse raw = .error cause) :
    resolveAfresh table limit chain reference = .error (.unreadable cause) := by
  rw [resolveAfresh, dif_neg (Bool.eq_false_iff.mp h)]
  split <;> simp_all

theorem resolveAfresh_parsed {raw : String} {e : Expression}
    (h : closesCycle limit chain reference = false) (hget : table.get? reference = some raw)
    (hparse : Expression.parse raw = .ok e) :
    resolveAfresh table limit chain reference =
      valueWith (resolveAfresh table limit (chain ++ [reference])) e := by
  rw [resolveAfresh, dif_neg (Bool.eq_false_iff.mp h)]
  split <;> simp_all

end

/-- A limit on chains turns a result into a cycle or does not change it. -/
theorem resolveAfresh_eq_or_cycle (table : LookupTable) (limit : Option Nat)
    (chain : List String) (reference : String) :
    resolveAfresh table limit chain reference = resolveAfresh table none chain reference ∨
      EndsInCycle (resolveAfresh table limit chain reference) := by
  induction chain, reference using resolveAfresh.induct table limit with
  | case1 chain reference hcycle =>
      exact Or.inr ⟨_, resolveAfresh_cycle hcycle⟩
  | case2 chain reference hopen hget =>
      have hopen := Bool.eq_false_iff.mpr hopen
      have hnone := closesCycle_none_of_false hopen
      exact Or.inl (by rw [resolveAfresh_missing hopen hget, resolveAfresh_missing hnone hget])
  | case3 chain reference hopen raw hget cause hparse =>
      have hopen := Bool.eq_false_iff.mpr hopen
      have hnone := closesCycle_none_of_false hopen
      exact Or.inl (by
        rw [resolveAfresh_unreadable hopen hget hparse,
          resolveAfresh_unreadable hnone hget hparse])
  | case4 chain reference hopen raw hget e hparse hnew hless ih =>
      have hopen := Bool.eq_false_iff.mpr hopen
      have hnone := closesCycle_none_of_false hopen
      rw [resolveAfresh_parsed hopen hget hparse, resolveAfresh_parsed hnone hget hparse]
      exact valueWith_eq_or_cycle ih e

theorem evaluateAfresh_eq_or_cycle (table : LookupTable) (limit : Option Nat) (e : Expression) :
    evaluateAfresh table limit e = evaluateAfresh table none e ∨
      EndsInCycle (evaluateAfresh table limit e) :=
  valueWith_eq_or_cycle (resolveAfresh_eq_or_cycle table limit []) e

/-- Induction along the references that are followed to a value. -/
@[elab_as_elim]
theorem resolveAfresh_induction {table : LookupTable} {P : List String → String → Evaluated → Prop}
    (step : ∀ chain reference raw e value, reference ∉ chain → table.get? reference = some raw →
      Expression.parse raw = .ok e →
      valueWith (resolveAfresh table none (chain ++ [reference])) e = .ok value →
      (∀ r v, resolveAfresh table none (chain ++ [reference]) r = .ok v →
        P (chain ++ [reference]) r v) →
      P chain reference value)
    {chain : List String} {reference : String} {value : Evaluated}
    (h : resolveAfresh table none chain reference = .ok value) : P chain reference value := by
  induction chain, reference using resolveAfresh.induct table none generalizing value with
  | case1 chain reference hcycle =>
      rw [resolveAfresh_cycle hcycle] at h
      cases h
  | case2 chain reference hopen hget =>
      rw [resolveAfresh_missing (Bool.eq_false_iff.mpr hopen) hget] at h
      cases h
  | case3 chain reference hopen raw hget cause hparse =>
      rw [resolveAfresh_unreadable (Bool.eq_false_iff.mpr hopen) hget hparse] at h
      cases h
  | case4 chain reference hopen raw hget e hparse hnew hless ih =>
      have hopen := Bool.eq_false_iff.mpr hopen
      rw [resolveAfresh_parsed hopen hget hparse] at h
      exact step chain reference raw e value (closesCycle_none_eq_false.mp hopen) hget hparse h
        fun r v hv => ih r hv

/-- The value of a reference is the same below another chain, if the other chain holds none
of the references it needs that the first does not hold. -/
theorem resolveAfresh_of_chain {table : LookupTable} {S : String → Prop}
    (hclosed : table.IsClosed S) {chain chain' : List String} {reference : String}
    {value : Evaluated} (hchain : ∀ r, S r → r ∈ chain' → r ∈ chain) (hmem : S reference)
    (h : resolveAfresh table none chain reference = .ok value) :
    resolveAfresh table none chain' reference = .ok value := by
  suffices hall : ∀ chain', (∀ r, S r → r ∈ chain' → r ∈ chain) → S reference →
      resolveAfresh table none chain' reference = .ok value from hall chain' hchain hmem
  refine resolveAfresh_induction
    (fun chain reference raw e value hnot hget hparse h ih chain' hchain hmem => ?_) h
  -- the other chain does not hold the reference, because it is one that is needed
  have hopen : closesCycle none chain' reference = false :=
    closesCycle_none_eq_false.mpr fun hin => hnot (hchain reference hmem hin)
  rw [resolveAfresh_parsed hopen hget hparse]
  refine valueWith_of_references (fun r hr v hv => ?_) h
  refine ih r v hv _ ?_ (hclosed hmem ⟨raw, e, hget, hparse, hr⟩)
  -- both chains grow by the same reference
  intro x hx hin
  rcases List.mem_append.mp hin with hin | hin
  · exact List.mem_append_left _ (hchain x hx hin)
  · exact List.mem_append_right _ hin

end DesignTokens
