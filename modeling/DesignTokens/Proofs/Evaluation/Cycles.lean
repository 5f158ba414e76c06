import DesignTokens.Proofs.Evaluation.LookupErrors
import DesignTokens.Proofs.Lookup.Chains
import Mathlib.Data.List.Nodup

set_option autoImplicit false

/-! # Cycles found by evaluation

Evaluation looks for a cycle only in the chain of references it is following, and a memo
keeps it from following a reference twice. Still no cycle is missed, and none is reported
where there is none (`evaluate_finds_cycles`).

That none is missed is seen on evaluation afresh: a reference with a value was followed
through everything it leads to, and nothing below it is in the chain it was met in
(`resolveAfresh_reaches`). That none is made up is seen on the memo's side: the chain that
ends an evaluation is one of the table's, and it either repeats a reference or is longer
than the limit (`resolve_eq_cycle`).
-/

namespace DesignTokens

/-! ## A value leaves no cycle behind -/

namespace Part

variable {f : String → Except EvalError Evaluated}

theorem exists_of_ofAtom {r : String} {part : Part} (h : ofAtom f (.reference r) = .ok part) :
    ∃ value, f r = .ok value := by
  rw [ofAtom] at h
  cases hf : f r with
  | error e =>
      rw [hf] at h
      cases h
  | ok value => exact ⟨value, rfl⟩

theorem exists_of_mapM_ofAtom {atoms : List Atom} {parts : List Part}
    (h : atoms.mapM (ofAtom f) = .ok parts) :
    ∀ r ∈ atoms.filterMap Atom.reference?, ∃ value, f r = .ok value := by
  induction atoms generalizing parts with
  | nil =>
      intro r hr
      cases hr
  | cons atom atoms ih =>
      obtain ⟨part, rest, hatom, hrest, -⟩ := mapM_ofAtom_cons_eq_ok.mp h
      intro r hr
      cases atom with
      | operator _ | number _ _ _ | verbatim _ => exact ih hrest r hr
      | reference text =>
          rcases List.mem_cons.mp hr with rfl | hr
          · exact exists_of_ofAtom hatom
          · exact ih hrest r hr

end Part

/-- The references of an expression with a value have values. -/
theorem exists_of_valueWith {f : String → Except EvalError Evaluated} {e : Expression}
    {value : Evaluated} (h : valueWith f e = .ok value) :
    ∀ r ∈ e.references, ∃ v, f r = .ok v := by
  rw [valueWith] at h
  cases hparts : e.atoms.mapM (Part.ofAtom f) with
  | error error =>
      rw [hparts] at h
      cases h
  | ok parts => exact Part.exists_of_mapM_ofAtom hparts

/-- Below a chain, whatever a reference with a value leads to can be read, is not in the
chain and does not lead back to itself. -/
theorem resolveAfresh_reaches {table : LookupTable} {chain : List String} {reference : String}
    {value : Evaluated} (h : resolveAfresh table none chain reference = .ok value) {r : String}
    (hr : Relation.ReflTransGen table.Refers reference r) :
    table.IsReadable r ∧ r ∉ chain ∧ ¬Relation.TransGen table.Refers r r := by
  suffices hall : ∀ r, Relation.ReflTransGen table.Refers reference r →
      table.IsReadable r ∧ r ∉ chain ∧ ¬Relation.TransGen table.Refers r r from hall r hr
  refine resolveAfresh_induction (fun chain reference raw e value hnot hget hparse h ih r hr => ?_) h
  -- every reference that this one refers to was followed below the longer chain
  have hbelow : ∀ next, table.Refers reference next → ∀ r',
      Relation.ReflTransGen table.Refers next r' →
      table.IsReadable r' ∧ r' ∉ chain ++ [reference] ∧
        ¬Relation.TransGen table.Refers r' r' := by
    intro next hrefers r' hr'
    have hmem := (LookupTable.refers_iff hget hparse).mp hrefers
    obtain ⟨v, hv⟩ := exists_of_valueWith h next hmem
    exact ih next v hv r' hr'
  rcases hr.cases_head with rfl | ⟨next, hrefers, hr⟩
  · refine ⟨⟨raw, e, hget, hparse⟩, hnot, ?_⟩
    intro hcycle
    obtain ⟨next, hrefers, hback⟩ := Relation.TransGen.head'_iff.mp hcycle
    obtain ⟨-, hout, -⟩ := hbelow next hrefers reference hback
    exact hout (List.mem_append_right _ List.mem_cons_self)
  · obtain ⟨hreadable, hout, hacyclic⟩ := hbelow next hrefers r hr
    exact ⟨hreadable, fun hin => hout (List.mem_append_left _ hin), hacyclic⟩

/-- Everything that an expression with a value leads to can be read and is on no cycle. -/
theorem evaluateAfresh_reaches {table : LookupTable} {e : Expression} {value : Evaluated}
    (h : evaluateAfresh table none e = .ok value) {r : String} (hr : table.Reaches e r) :
    table.IsReadable r ∧ ¬Relation.TransGen table.Refers r r := by
  obtain ⟨first, hmem, hpath⟩ := hr
  obtain ⟨v, hv⟩ := exists_of_valueWith h first hmem
  obtain ⟨hreadable, -, hacyclic⟩ := resolveAfresh_reaches hv hpath
  exact ⟨hreadable, hacyclic⟩

/-- A value is the value that evaluation afresh gives without a limit. -/
theorem evaluateAfresh_of_evaluate {table : LookupTable} {e : Expression} {value : Evaluated}
    (h : (evaluate table e).result = .ok value) : evaluateAfresh table none e = .ok value := by
  -- the memo may be left out, since evaluation did not end in a cycle
  rcases evaluate_eq_or_cycle table e with heq | ⟨⟨chain, hcycle⟩, -⟩
  · rw [← heq, h]
  · rw [h] at hcycle
    cases hcycle

theorem evaluate_reaches {table : LookupTable} {e : Expression} {value : Evaluated}
    (h : (evaluate table e).result = .ok value) {r : String} (hr : table.Reaches e r) :
    table.IsReadable r ∧ ¬Relation.TransGen table.Refers r r :=
  evaluateAfresh_reaches (evaluateAfresh_of_evaluate h) hr

/-! ## A reported cycle is a chain of the table -/

section

variable {resolve : Memo → String → Traced EvalError (Evaluated × Memo)} {memo : Memo}

/-- Only resolving a reference can fail before the parts are assembled. -/
theorem resolveAtoms_eq_error {atoms : List Atom} {error : EvalError}
    (h : (resolveAtoms resolve memo atoms).result = .error error) :
    ∃ memo', ∃ r ∈ atoms.filterMap Atom.reference?, (resolve memo' r).result = .error error := by
  induction atoms generalizing memo with
  | nil => cases h
  | cons atom atoms ih =>
      cases atom with
      | operator _ | number _ _ _ | verbatim _ =>
          rcases Traced.result_bind_eq_error.mp h with hrest | ⟨p, -, hpure⟩
          · exact ih hrest
          · cases hpure
      | reference r =>
          rcases Traced.result_bind_eq_error.mp h with hfirst | ⟨p, -, hnext⟩
          · exact ⟨memo, r, List.mem_cons_self, hfirst⟩
          rcases Traced.result_bind_eq_error.mp hnext with hrest | ⟨q, -, hpure⟩
          · obtain ⟨memo', r', hmem, hr'⟩ := ih hrest
            exact ⟨memo', r', List.mem_cons_of_mem _ hmem, hr'⟩
          · cases hpure

/-- A cycle that ends the evaluation of an expression ended that of one of its references. -/
theorem evaluateWith_eq_cycle {depth : Nat} {e : Expression} {cycle : List String}
    (h : (evaluateWith resolve depth memo e).result = .error (.referenceCycle cycle)) :
    ∃ memo', ∃ r ∈ e.references, (resolve memo' r).result = .error (.referenceCycle cycle) := by
  rw [evaluateWith] at h
  rcases Traced.result_bind_eq_error.mp h with hreport | ⟨_, -, h⟩
  · cases hreport
  rcases Traced.result_bind_eq_error.mp h with hatoms | ⟨p, -, h⟩
  · exact resolveAtoms_eq_error hatoms
  rcases Traced.result_bind_eq_error.mp h with hassemble | ⟨v, -, hpure⟩
  · -- assembling parts fails with an error of the formula
    obtain ⟨formula, cause, herror⟩ := assemble_eq_error hassemble
    cases cause <;> cases herror
  · cases hpure

end

/-- A cycle that ends the resolution of a reference is closed by the reference itself, or it
ended that of a reference it refers to, one further down. -/
theorem resolve_succ_eq_cycle {table : LookupTable} {room : Nat} {chain : List String}
    {memo : Memo} {reference : String} {cycle : List String}
    (h : (resolve table (room + 1) chain memo reference).result =
      .error (.referenceCycle cycle)) :
    (reference ∈ chain ∧ cycle = chain ++ [reference]) ∨
      reference ∉ chain ∧ ∃ memo' r, table.Refers reference r ∧
        (resolve table room (chain ++ [reference]) memo' r).result =
          .error (.referenceCycle cycle) := by
  by_cases hmem : chain.contains reference = true
  · rw [result_resolve_cycle hmem] at h
    cases h
    exact Or.inl ⟨List.contains_iff_mem.mp hmem, rfl⟩
  have hmem := Bool.eq_false_iff.mpr hmem
  cases hmemo : memo.lookup reference with
  | some value =>
      rw [result_resolve_remembered hmem hmemo] at h
      cases h
  | none =>
      cases hget : table.get? reference with
      | none =>
          rw [result_resolve_missing hmem hmemo hget] at h
          cases h
      | some raw =>
          cases hparse : Expression.parse raw with
          | error cause =>
              rw [result_resolve_unreadable hmem hmemo hget hparse] at h
              cases h
          | ok e =>
              rw [result_resolve_parsed hmem hmemo hget hparse] at h
              generalize heval : (evaluateWith (resolve table room (chain ++ [reference]))
                (chain ++ [reference]).length memo e).result = outcome at h
              cases outcome with
              | ok p => cases h
              | error error =>
                  cases h
                  obtain ⟨memo', r, hr, hcycle⟩ := evaluateWith_eq_cycle heval
                  refine Or.inr ⟨by simpa using hmem, memo', r, ?_, hcycle⟩
                  exact ⟨raw, e, hget, hparse, hr⟩

/-- A chain that ends an evaluation under a limit: different references that follow one another
from an expression on, and one more that is among them or exceeds the limit. -/
structure ReportsCycle (table : LookupTable) (e : Expression) (limit : Nat)
    (front : List String) (last : String) : Prop where
  chain : table.IsChainFrom e (front ++ [last])
  nodup : front.Nodup
  closes : last ∈ front ∨ front.length = limit

namespace ReportsCycle

variable {table : LookupTable} {e : Expression} {limit : Nat} {front : List String}
  {last : String}

/-- The first reference of a reported chain is one of the expression's own. -/
theorem exists_head? (h : ReportsCycle table e limit front last) :
    ∃ first ∈ e.references, (front ++ [last]).head? = some first := by
  cases front with
  | nil => exact ⟨last, h.chain.starts last rfl, rfl⟩
  | cons first rest => exact ⟨first, h.chain.starts first rfl, rfl⟩

/-- A reported chain comes back to a reference that leads to itself, or it is one longer than
the limit. -/
theorem cycle_or_length_eq (h : ReportsCycle table e limit front last) :
    (last ∈ front ∧ Relation.TransGen table.Refers last last) ∨
      (front ++ [last]).length = limit + 1 := by
  rcases h.closes with hrepeats | hlong
  · exact Or.inl ⟨hrepeats, h.chain.transGen hrepeats⟩
  · exact Or.inr (by rw [List.length_append, hlong, List.length_singleton])

end ReportsCycle

/-- The cycle that ends the resolution of a reference goes on with the chain it was met in. -/
theorem resolve_eq_cycle {table : LookupTable} {e : Expression} {room : Nat}
    {chain : List String} {memo : Memo} {reference : String} {cycle : List String}
    (hchain : table.IsChainFrom e (chain ++ [reference])) (hnodup : chain.Nodup)
    (h : (resolve table room chain memo reference).result = .error (.referenceCycle cycle)) :
    ∃ front last, cycle = front ++ [last] ∧
      ReportsCycle table e (chain.length + room) front last := by
  induction room generalizing chain memo reference with
  | zero =>
      cases h
      exact ⟨chain, reference, rfl, hchain, hnodup, Or.inr rfl⟩
  | succ room ih =>
      rcases resolve_succ_eq_cycle h with ⟨hmem, rfl⟩ | ⟨hnew, memo', r, hrefers, hcycle⟩
      · exact ⟨chain, reference, rfl, hchain, hnodup, Or.inl hmem⟩
      · have hlonger : (chain ++ [reference]).Nodup := by
          rw [← List.concat_eq_append]
          exact hnodup.concat hnew
        have hlength : (chain ++ [reference]).length + room = chain.length + (room + 1) := by
          rw [List.length_append, List.length_singleton]
          omega
        rw [← hlength]
        exact ih (hchain.extend hrefers) hlonger hcycle

/-- The chain that a cycle is reported with is one of the table's. -/
theorem evaluate_eq_cycle {table : LookupTable} {e : Expression} {cycle : List String}
    (h : (evaluate table e).result = .error (.referenceCycle cycle)) :
    ∃ front last, cycle = front ++ [last] ∧ ReportsCycle table e maxReferenceDepth front last := by
  rw [evaluate] at h
  rcases Traced.result_bind_eq_error.mp h with heval | ⟨p, -, hpure⟩
  · obtain ⟨memo', r, hr, hcycle⟩ := evaluateWith_eq_cycle heval
    have hchain : table.IsChainFrom e ([] ++ [r]) := .singleton hr
    have hreport := resolve_eq_cycle hchain List.nodup_nil hcycle
    rwa [List.length_nil, Nat.zero_add] at hreport
  · cases hpure

/-- **Cycles are found, and only cycles.** If an expression has a value, everything it leads
to is stored, can be read and does not lead back to itself. If nothing it leads to leads back
to itself and its chains have no more references than the limit, its evaluation does not end
in a cycle. -/
theorem evaluate_finds_cycles (table : LookupTable) (e : Expression) :
    (∀ value, (evaluate table e).result = .ok value →
      (∀ r, table.Reaches e r →
        ∃ raw e', table.get? r = some raw ∧ Expression.parse raw = .ok e') ∧
      table.IsAcyclicBelow e) ∧
    (table.IsAcyclicBelow e →
      (∀ chain, table.IsChainFrom e chain → chain.length ≤ maxReferenceDepth) →
      ¬EndsInCycle (evaluate table e).result) := by
  constructor
  · intro value h
    exact ⟨fun r hr => (evaluate_reaches h hr).1, fun r hr => (evaluate_reaches h hr).2⟩
  · rintro hacyclic hshort ⟨cycle, h⟩
    obtain ⟨front, last, -, hreport⟩ := evaluate_eq_cycle h
    rcases hreport.closes with hrepeats | hlong
    · have hreached : table.Reaches e last :=
        hreport.chain.reaches (List.mem_append_left _ hrepeats)
      exact hacyclic last hreached (hreport.chain.transGen hrepeats)
    · have hbound := hshort _ hreport.chain
      rw [List.length_append, List.length_singleton] at hbound
      omega

/-- How far a reference stands before the end of a table. -/
def LookupTable.rankBefore (table : LookupTable) (r : String) : Nat :=
  table.size - (table.entries.map Prod.fst).idxOf r

theorem sharedTable_isRankedBy : sharedTable.IsRankedBy sharedTable.rankBefore = true := by
  decide +kernel

theorem evaluate_finds_no_cycle_shared :
    (evaluate sharedTable sharedExpression).result =
        .ok (.number ⟨7, 0, by decide, by decide⟩ (some "px")) ∧
      (∀ r, sharedTable.Reaches sharedExpression r →
        ∃ raw e', sharedTable.get? r = some raw ∧ Expression.parse raw = .ok e') ∧
      sharedTable.IsAcyclicBelow sharedExpression ∧
      (∀ chain, sharedTable.IsChainFrom sharedExpression chain →
        chain.length ≤ maxReferenceDepth) ∧
      ¬EndsInCycle (evaluate sharedTable sharedExpression).result := by
  have hvalue : (evaluate sharedTable sharedExpression).result =
      .ok (.number ⟨7, 0, by decide, by decide⟩ (some "px")) := by
    decide +kernel
  have hshort : ∀ chain, sharedTable.IsChainFrom sharedExpression chain →
      chain.length ≤ maxReferenceDepth := by
    intro chain hchain
    have hbound : ∀ r ∈ sharedExpression.references, sharedTable.rankBefore r < 5 := by
      decide +kernel
    have hlength := hchain.length_le_of_rank sharedTable_isRankedBy hbound
    exact hlength.trans (by decide)
  have hboth := evaluate_finds_cycles sharedTable sharedExpression
  obtain ⟨hreadable, hacyclic⟩ := hboth.1 _ hvalue
  exact ⟨hvalue, hreadable, hacyclic, hshort, hboth.2 hacyclic hshort⟩

end DesignTokens
