import DesignTokens.Proofs.Decimal.Normalize
import DesignTokens.Proofs.Evaluation.Cycles
import DesignTokens.Proofs.Expression.Reference
import DesignTokens.Proofs.Formula.Folding

set_option autoImplicit false

/-! # The value of a reference

A reference to a stored value is worth what the expression of the value is worth
(`evaluate_ofReference`). Following the reference is one step more, and a value that is a
part of its own is assembled once more.

The step changes nothing as long as chains keep within the limit: below the reference the
expression is evaluated with a longer chain, which gives the same results or closes a cycle
(`resolveAfresh_of_subset`), and there are no cycles to close. Assembling again changes
nothing because the numbers that evaluation gives are in normal form already
(`assemble_ofEvaluated`).
-/

namespace DesignTokens

/-! ## Longer chains -/

theorem closesCycle_of_subset {chain chain' : List String} {reference : String}
    (hsubset : ∀ r ∈ chain, r ∈ chain') (h : closesCycle none chain' reference = false) :
    closesCycle none chain reference = false :=
  closesCycle_none_eq_false.mpr fun hmem =>
    closesCycle_none_eq_false.mp h (hsubset reference hmem)

/-- Below a longer chain a reference has the value it has below a shorter one, or closes a
cycle. -/
theorem resolveAfresh_of_subset {table : LookupTable} {chain chain' : List String}
    {reference : String} (hsubset : ∀ r ∈ chain, r ∈ chain') :
    resolveAfresh table none chain' reference = resolveAfresh table none chain reference ∨
      EndsInCycle (resolveAfresh table none chain' reference) := by
  induction chain', reference using resolveAfresh.induct table none generalizing chain with
  | case1 chain' reference hcycle => exact Or.inr ⟨_, resolveAfresh_cycle hcycle⟩
  | case2 chain' reference hopen' hget =>
      have hopen' := Bool.eq_false_iff.mpr hopen'
      have hopen := closesCycle_of_subset hsubset hopen'
      exact Or.inl (by rw [resolveAfresh_missing hopen' hget, resolveAfresh_missing hopen hget])
  | case3 chain' reference hopen' raw hget cause hparse =>
      have hopen' := Bool.eq_false_iff.mpr hopen'
      have hopen := closesCycle_of_subset hsubset hopen'
      exact Or.inl (by
        rw [resolveAfresh_unreadable hopen' hget hparse,
          resolveAfresh_unreadable hopen hget hparse])
  | case4 chain' reference hopen' raw hget e hparse hnew hless ih =>
      have hopen' := Bool.eq_false_iff.mpr hopen'
      have hopen := closesCycle_of_subset hsubset hopen'
      rw [resolveAfresh_parsed hopen' hget hparse, resolveAfresh_parsed hopen hget hparse]
      refine valueWith_eq_or_cycle (fun r => ih r ?_) e
      -- both chains grow by the reference
      intro x hx
      rcases List.mem_append.mp hx with hx | hx
      · exact List.mem_append_left _ (hsubset x hx)
      · exact List.mem_append_right _ hx

/-! ## Assembling a value again -/

theorem assemble_text (content : String) : assemble true [.text content] = .ok (.text content) := by
  simp [assemble, Part.isText, Part.written, String.join]

/-- Parts that make a sum without rounding are worth the decimal of its value, in normal
form. -/
theorem assemble_exact {parts : List Part} {s : SumTree} {value : Decimal}
    (htext : parts.any Part.isText = false) (hterms : parts.filterMap Part.term? = s.terms)
    (hexact : s.IsExact) (hvalue : value.toRat = s.exact) :
    assemble true parts = .ok (.number value.normalize (parts.findSome? Part.unit?)) := by
  obtain ⟨d, hd, hsame⟩ := evaluateTerms_exact hexact
  have hnormal : d.normalize = value.normalize :=
    Decimal.normalize_eq_of_toRat_eq (hsame.trans hvalue.symm)
  rw [assemble, htext, hterms, hd, ← hnormal]
  rfl

/-- A single number is its own value, in normal form. -/
theorem assemble_number (value : Decimal) (unit : Option String) :
    assemble true [.number value unit] = .ok (.number value.normalize unit) := by
  have hunit : [Part.number value unit].findSome? Part.unit? = unit := by
    cases unit <;> rfl
  -- a number is a sum of one product of one factor, where nothing is rounded
  have hexact := @assemble_exact [.number value unit] (.first (.number value)) value rfl rfl
    trivial rfl
  rwa [hunit] at hexact

/-- A value that was assembled is not changed when it is assembled again. -/
theorem assemble_ofEvaluated {numeric : Bool} {parts : List Part} {value : Evaluated}
    (h : assemble numeric parts = .ok value) :
    assemble true [.ofEvaluated value] = .ok value := by
  unfold assemble at h
  split at h
  · split at h
    · rename_i d hd
      cases h
      rw [Part.ofEvaluated, assemble_number, Decimal.normalize_normalize]
    · cases h
  · cases h
    exact assemble_text _

theorem assemble_ofEvaluated_of_valueWith {resolve : String → Except EvalError Evaluated}
    {e : Expression} {value : Evaluated} (h : valueWith resolve e = .ok value) :
    assemble true [.ofEvaluated value] = .ok value := by
  rw [valueWith] at h
  cases hparts : e.atoms.mapM (Part.ofAtom resolve) with
  | error error =>
      rw [hparts] at h
      cases h
  | ok parts =>
      rw [hparts] at h
      exact assemble_ofEvaluated h

/-! ## Evaluation without cycles -/

section

variable {table : LookupTable} {e : Expression}

/-- Where there are no cycles, a reported chain exceeds the limit. -/
theorem ReportsCycle.length_eq {limit : Nat} {front : List String} {last : String}
    (h : ReportsCycle table e limit front last) (hacyclic : table.IsAcyclicBelow e) :
    (front ++ [last]).length = limit + 1 := by
  rcases h.cycle_or_length_eq with ⟨hrepeats, hcycle⟩ | hlength
  · exact absurd hcycle (hacyclic last (h.chain.reaches (List.mem_append_left _ hrepeats)))
  · exact hlength

/-- Without cycles and long chains, memo and limit make no difference. -/
theorem result_evaluate_of_isAcyclicBelow (hacyclic : table.IsAcyclicBelow e)
    (hshort : ∀ chain, table.IsChainFrom e chain → chain.length ≤ maxReferenceDepth) :
    (evaluate table e).result = evaluateAfresh table none e ∧
      ¬EndsInCycle (evaluateAfresh table none e) := by
  have hnot : ¬EndsInCycle (evaluate table e).result := by
    rintro ⟨cycle, h⟩
    obtain ⟨front, last, -, hreport⟩ := evaluate_eq_cycle h
    have hlong := hreport.length_eq hacyclic
    have hbound := hshort _ hreport.chain
    omega
  rcases evaluate_eq_or_cycle table e with heq | ⟨hcycle, -⟩
  · rw [heq] at hnot ⊢
    exact ⟨rfl, hnot⟩
  · exact absurd hcycle hnot

end

/-! ## One reference more -/

section

variable {table : LookupTable} {reference raw : String} {e : Expression}
  (hget : table.get? reference = some raw) (hparse : Expression.parse raw = .ok e)

include hget hparse

/-- A reference leads to itself and to what its value leads to. -/
theorem reaches_ofReference {r : String} (h : table.Reaches (.ofReference reference) r) :
    r = reference ∨ table.Reaches e r := by
  obtain ⟨first, hmem, hpath⟩ := h
  rw [List.mem_singleton.mp hmem] at hpath
  rcases hpath.cases_head with rfl | ⟨next, hrefers, hpath⟩
  · exact Or.inl rfl
  · exact Or.inr ⟨next, (LookupTable.refers_iff hget hparse).mp hrefers, hpath⟩

theorem isAcyclicBelow_ofReference (hacyclic : table.IsAcyclicBelow e) :
    table.IsAcyclicBelow (.ofReference reference) := by
  intro r hr hcycle
  rcases reaches_ofReference hget hparse hr with rfl | hreached
  · -- a cycle through the reference goes through its value
    obtain ⟨next, hrefers, hback⟩ := Relation.TransGen.head'_iff.mp hcycle
    have hnext := (LookupTable.refers_iff hget hparse).mp hrefers
    exact hacyclic r ⟨next, hnext, hback⟩ hcycle
  · exact hacyclic r hreached hcycle

/-- After the reference a chain goes on with a chain of its value. -/
theorem isChainFrom_ofReference {first : String} {rest : List String}
    (h : table.IsChainFrom (.ofReference reference) (first :: rest)) :
    table.IsChainFrom e rest where
  starts r hr := by
    have hfirst : first = reference := List.mem_singleton.mp (h.starts first rfl)
    subst hfirst
    have hrefers : table.Refers first r := (List.isChain_cons.mp h.linked).1 r hr
    exact (LookupTable.refers_iff hget hparse).mp hrefers
  linked := h.linked.tail

/-- The value of a reference is assembled from that of its expression, evaluated below the
reference. -/
theorem evaluateAfresh_ofReference :
    evaluateAfresh table none (.ofReference reference) =
      (valueWith (resolveAfresh table none [reference]) e).bind
        fun value => assemble true [.ofEvaluated value] := by
  have hopen : closesCycle none [] reference = false := rfl
  have hresolve := resolveAfresh_parsed hopen hget hparse
  rw [List.nil_append] at hresolve
  rw [evaluateAfresh, valueWith, Expression.atoms_ofReference, Part.mapM_ofAtom_cons,
    Part.ofAtom, hresolve]
  cases valueWith (resolveAfresh table none [reference]) e <;> rfl

/-- **A reference is worth what it refers to.** If the value of a reference leads to no
cycles and to no chains as long as the limit, the reference evaluates to the result of its
value, be it a value or an error. -/
theorem evaluate_ofReference (hacyclic : table.IsAcyclicBelow e)
    (hshort : ∀ chain, table.IsChainFrom e chain → chain.length < maxReferenceDepth) :
    (evaluate table (.ofReference reference)).result = (evaluate table e).result := by
  have hown := result_evaluate_of_isAcyclicBelow hacyclic fun chain h => (hshort chain h).le
  have hlonger : ∀ chain, table.IsChainFrom (.ofReference reference) chain →
      chain.length ≤ maxReferenceDepth := by
    intro chain hchain
    cases chain with
    | nil => exact Nat.zero_le _
    | cons first rest => exact hshort rest (isChainFrom_ofReference hget hparse hchain)
  have hreference :=
    result_evaluate_of_isAcyclicBelow (isAcyclicBelow_ofReference hget hparse hacyclic) hlonger
  rw [hown.1, hreference.1]
  -- below the reference the chain is longer, so that it could only close a cycle
  rcases valueWith_eq_or_cycle
    (fun r => resolveAfresh_of_subset (List.nil_subset [reference])) e with hsame | hcycle
  · rw [evaluateAfresh_ofReference hget hparse, hsame, evaluateAfresh]
    cases hvalue : valueWith (resolveAfresh table none []) e with
    | error error => rfl
    | ok value => exact assemble_ofEvaluated_of_valueWith hvalue
  · have hends := hcycle.bind fun value => assemble true [.ofEvaluated value]
    rw [← evaluateAfresh_ofReference hget hparse] at hends
    exact absurd hends hreference.2

end

end DesignTokens
