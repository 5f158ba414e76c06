import DesignTokens.Proofs.Evaluation.Order

set_option autoImplicit false

/-! # The chain of a reported cycle

An evaluation that ends in a cycle reports a chain of references, and the chain is evidence
of the cycle (`evaluate_reports_chain`): its references follow one another from the
expression on, only the last may occur twice, and where it does, it leads back to itself.
Otherwise the chain has one reference more than may be followed.

That the chain is one of the table's is `evaluate_eq_cycle`. What is added here is its length:
a reference is only entered while there is room, whether the chain closes a cycle or not
(`length_le_of_resolve_eq_cycle`).
-/

namespace DesignTokens

section

variable {table : LookupTable} {e : Expression}

/-- The chain that ends the resolution of a reference has at most one reference more than
there is room for. -/
theorem length_le_of_resolve_eq_cycle {room : Nat} {chain : List String} {memo : Memo}
    {reference : String} {cycle : List String}
    (h : (resolve table room chain memo reference).result = .error (.referenceCycle cycle)) :
    cycle.length ≤ chain.length + room + 1 := by
  induction room generalizing chain memo reference with
  | zero =>
      cases h
      rw [List.length_append, List.length_singleton, Nat.add_zero]
  | succ room ih =>
      rcases resolve_succ_eq_cycle h with ⟨-, rfl⟩ | ⟨-, memo', r, -, hcycle⟩
      · rw [List.length_append, List.length_singleton]
        omega
      · have hlength := ih hcycle
        rw [List.length_append, List.length_singleton] at hlength
        omega

/-- No reported chain exceeds the limit by more than the reference that was not entered. -/
theorem length_le_of_evaluate_eq_cycle {cycle : List String}
    (h : (evaluate table e).result = .error (.referenceCycle cycle)) :
    cycle.length ≤ maxReferenceDepth + 1 := by
  rw [evaluate] at h
  rcases Traced.result_bind_eq_error.mp h with heval | ⟨p, -, hpure⟩
  · obtain ⟨memo', r, -, hcycle⟩ := evaluateWith_eq_cycle heval
    have hlength := length_le_of_resolve_eq_cycle hcycle
    rwa [List.length_nil, Nat.zero_add] at hlength
  · cases hpure

/-- **A reported cycle is evidence of itself.** The chain that ends an evaluation starts with
a reference of the expression, and each later reference is in the value of the one before it.
All references but the last are different. The last one is among the others, and then leads
back to itself, or the chain has exactly one reference more than may be followed. No chain is
longer than that. -/
theorem evaluate_reports_chain {chain : List String}
    (h : (evaluate table e).result = .error (.referenceCycle chain)) :
    ∃ front last, chain = front ++ [last] ∧
      (∃ first ∈ e.references, chain.head? = some first) ∧
      (∀ i r r', chain[i]? = some r → chain[i + 1]? = some r' →
        ∃ raw e', table.get? r = some raw ∧ Expression.parse raw = .ok e' ∧
          r' ∈ e'.references) ∧
      front.Nodup ∧
      ((last ∈ front ∧ Relation.TransGen table.Refers last last) ∨
        chain.length = maxReferenceDepth + 1) ∧
      chain.length ≤ maxReferenceDepth + 1 := by
  have hlength := length_le_of_evaluate_eq_cycle h
  obtain ⟨front, last, rfl, hreport⟩ := evaluate_eq_cycle h
  refine ⟨front, last, rfl, hreport.exists_head?, ?_, hreport.nodup, hreport.cycle_or_length_eq,
    hlength⟩
  intro i r r' hr hr'
  obtain ⟨hlt, rfl⟩ := List.getElem?_eq_some_iff.mp hr'
  obtain ⟨hlt', rfl⟩ := List.getElem?_eq_some_iff.mp hr
  exact hreport.chain.linked.getElem i hlt

end

/-- The references of `cyclicTable` close a cycle; those of `longTable` are one too many. -/
theorem evaluate_reports_chain_cyclic :
    (evaluate cyclicTable cyclicExpression).result =
        .error (.referenceCycle ["{a}", "{b}", "{a}"]) ∧
      Relation.TransGen cyclicTable.Refers "{a}" "{a}" ∧
      (evaluate longTable (.sumOf (link 0) (link 1))).result =
        .error (.referenceCycle ((List.range (maxReferenceDepth + 1)).map link)) ∧
      ((List.range maxReferenceDepth).map link).Nodup := by
  have hcyclic : (evaluate cyclicTable cyclicExpression).result =
      .error (.referenceCycle ["{a}", "{b}", "{a}"]) := by
    decide +kernel
  obtain ⟨hlong, -⟩ := evaluate_longTable
  refine ⟨hcyclic, ?_, hlong, ?_⟩
  · obtain ⟨front, last, hchain, -, -, -, hcloses, -⟩ := evaluate_reports_chain hcyclic
    have hsplit : ["{a}", "{b}"] ++ ["{a}"] = front ++ [last] := hchain
    obtain ⟨rfl, hlast⟩ := List.append_inj' hsplit rfl
    cases hlast
    rcases hcloses with ⟨-, hcycle⟩ | hlength
    · exact hcycle
    · exact absurd hlength (by decide)
  · obtain ⟨front, last, hchain, -, -, hnodup, -⟩ := evaluate_reports_chain hlong
    rw [List.range_succ, List.map_append, List.map_singleton] at hchain
    obtain ⟨rfl, -⟩ := List.append_inj' hchain rfl
    exact hnodup

end DesignTokens
