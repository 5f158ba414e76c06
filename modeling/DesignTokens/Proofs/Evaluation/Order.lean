import DesignTokens.Proofs.Evaluation.Reference

set_option autoImplicit false

/-! # The order of references

The references of a sum are resolved from left to right, the second with what the first left
in the memo. A remembered reference is not followed again, so the memo can shorten the
chains of the second reference, and the limit on chains can be met in one order and not in
the other (`hasValue_sumOf_depends_on_order`).

A larger memo never does harm: what is resolved with a memo is resolved with a larger one as
well, to the same value (`resolve_simulates`). So an order succeeds if both references
succeed alone, and it cannot succeed if its first reference fails alone;
`evaluate_sumOf_comm` puts this together.
-/

namespace DesignTokens

/-! ## Runs with related memos -/

/-- Whatever `run` gives with a memo, `run'` gives with a related one, and the memos they
leave are related again. -/
def Simulates {α : Type} (R : Memo → Memo → Prop) (run run' : Memo → Traced EvalError (α × Memo)) :
    Prop :=
  ∀ {memo memo' : Memo} {a : α} {m : Memo}, R memo memo' → (run memo).result = .ok (a, m) →
    ∃ m', (run' memo').result = .ok (a, m') ∧ R m m'

section

variable {R : Memo → Memo → Prop}
  {resolve resolve' : Memo → String → Traced EvalError (Evaluated × Memo)}

theorem resolveAtoms_simulates {atoms : List Atom}
    (hresolve : ∀ r ∈ atoms.filterMap Atom.reference?, Simulates R (resolve · r) (resolve' · r)) :
    Simulates R (resolveAtoms resolve · atoms) (resolveAtoms resolve' · atoms) := by
  intro memo memo' parts m hR h
  induction atoms generalizing memo memo' parts with
  | nil =>
      cases h
      exact ⟨memo', rfl, hR⟩
  | cons atom atoms ih =>
      cases atom with
      | operator _ | number _ _ _ | verbatim _ =>
          obtain ⟨⟨rest, m₁⟩, hrest, hpure⟩ := Traced.result_bind_eq_ok.mp h
          cases hpure
          obtain ⟨m', hrest', hR'⟩ := ih hresolve hR hrest
          exact ⟨m', Traced.result_bind_eq_ok.mpr ⟨_, hrest', rfl⟩, hR'⟩
      | reference r =>
          obtain ⟨⟨value, m₁⟩, hfirst, hnext⟩ := Traced.result_bind_eq_ok.mp h
          obtain ⟨⟨rest, m₂⟩, hrest, hpure⟩ := Traced.result_bind_eq_ok.mp hnext
          cases hpure
          obtain ⟨m₁', hfirst', hR₁⟩ := hresolve r List.mem_cons_self hR hfirst
          obtain ⟨m', hrest', hR'⟩ :=
            ih (fun r' hr' => hresolve r' (List.mem_cons_of_mem _ hr')) hR₁ hrest
          exact ⟨m', Traced.result_bind_eq_ok.mpr ⟨_, hfirst',
            Traced.result_bind_eq_ok.mpr ⟨_, hrest', rfl⟩⟩, hR'⟩

/-- Evaluations of an expression are related if the resolutions of its references are. -/
theorem evaluateWith_simulates {e : Expression}
    (hresolve : ∀ r ∈ e.references, Simulates R (resolve · r) (resolve' · r)) (depth : Nat) :
    Simulates R (evaluateWith resolve depth · e) (evaluateWith resolve' depth · e) := by
  intro memo memo' value m hR h
  rw [result_evaluateWith] at h
  obtain ⟨⟨parts, m₁⟩, hatoms, hassemble⟩ := except_bind_eq_ok_iff.mp h
  obtain ⟨v, hv, hpure⟩ := except_bind_eq_ok_iff.mp hassemble
  cases hpure
  obtain ⟨m', hatoms', hR'⟩ := resolveAtoms_simulates hresolve hR hatoms
  refine ⟨m', ?_, hR'⟩
  rw [result_evaluateWith]
  exact except_bind_eq_ok_iff.mpr ⟨_, hatoms', except_bind_eq_ok_iff.mpr ⟨_, hv, rfl⟩⟩

/-- What resolving each reference preserves of a memo, evaluating an expression preserves. -/
theorem evaluateWith_preserves {P : Memo → Prop} {e : Expression}
    (hresolve : ∀ r ∈ e.references, ∀ memo value m, P memo →
      (resolve memo r).result = .ok (value, m) → P m)
    {depth : Nat} {memo m : Memo} {value : Evaluated} (hmemo : P memo)
    (h : (evaluateWith resolve depth memo e).result = .ok (value, m)) : P m := by
  -- the evaluation is related to itself by the invariant
  have hself : ∀ r ∈ e.references,
      Simulates (fun memo memo' => memo' = memo ∧ P memo) (resolve · r) (resolve · r) := by
    rintro r hr memo memo' value m ⟨rfl, hP⟩ hrun
    exact ⟨m, hrun, rfl, hresolve r hr memo' value m hP hrun⟩
  obtain ⟨m', -, -, hP⟩ := evaluateWith_simulates hself depth ⟨rfl, hmemo⟩ h
  exact hP

end

/-! ## Resolutions that succeed -/

section

variable {table : LookupTable} {room : Nat} {chain : List String} {memo memo' m : Memo}
  {reference : String} {value : Evaluated}

/-- A reference with a value is new to the chain. It is remembered, or it has the value of
its expression. -/
theorem resolve_succ_eq_ok
    (h : (resolve table (room + 1) chain memo reference).result = .ok (value, m)) :
    chain.contains reference = false ∧
      (memo.lookup reference = some value ∧ m = memo ∨
        memo.lookup reference = none ∧ ∃ raw e m₁, table.get? reference = some raw ∧
          Expression.parse raw = .ok e ∧
          (evaluateWith (resolve table room (chain ++ [reference]))
            (chain ++ [reference]).length memo e).result = .ok (value, m₁) ∧
          m = (reference, value) :: m₁) := by
  by_cases hmem : chain.contains reference = true
  · rw [result_resolve_cycle hmem] at h
    cases h
  have hmem := Bool.eq_false_iff.mpr hmem
  refine ⟨hmem, ?_⟩
  cases hmemo : memo.lookup reference with
  | some own =>
      rw [result_resolve_remembered hmem hmemo] at h
      cases h
      exact Or.inl ⟨rfl, rfl⟩
  | none =>
      cases hget : table.get? reference with
      | none =>
          rw [result_resolve_missing hmem hmemo hget] at h
          cases h
      | some raw =>
          cases hparse : Expression.parse raw with
          | error cause =>
              rw [result_resolve_unreadable hmem hmemo hget hparse] at h
              cases h
          | ok e =>
              rw [result_resolve_parsed hmem hmemo hget hparse] at h
              obtain ⟨⟨v, m₁⟩, heval, hpure⟩ := except_bind_eq_ok_iff.mp h
              cases hpure
              exact Or.inr ⟨rfl, raw, e, m₁, rfl, hparse, heval, rfl⟩

/-- A successful resolution gives the value of the reference and leaves a sound memo. -/
theorem resolve_eq_ok (hsound : memo.Sound table chain)
    (h : (resolve table room chain memo reference).result = .ok (value, m)) :
    resolveAfresh table none chain reference = .ok value ∧ m.Sound table chain := by
  have hagrees := resolve_agrees table (chain.length + room) room chain rfl memo reference hsound
  rw [h] at hagrees
  generalize resolveAfresh table none chain reference = afresh at hagrees ⊢
  cases hagrees with
  | ok hsound' hextends hrefs => exact ⟨rfl, hsound'⟩

/-- Resolving a reference of a closed set remembers only references of the set. -/
theorem resolve_within {S : String → Prop} (hclosed : table.IsClosed S) (hmem : S reference)
    (hmemo : ∀ r, memo.Holds r → S r)
    (h : (resolve table room chain memo reference).result = .ok (value, m)) :
    ∀ r, m.Holds r → S r := by
  induction room generalizing chain memo reference value m with
  | zero => cases h
  | succ room ih =>
      obtain ⟨-, ⟨-, rfl⟩ | ⟨-, raw, e, m₁, hget, hparse, heval, rfl⟩⟩ := resolve_succ_eq_ok h
      · exact hmemo
      · have hnested : ∀ r, m₁.Holds r → S r := by
          refine evaluateWith_preserves (P := fun memo => ∀ r, memo.Holds r → S r)
            (fun next hnext memo value m hmemo hrun => ?_) hmemo heval
          exact ih (hclosed hmem ⟨raw, e, hget, hparse, hnext⟩) hmemo hrun
        intro r hr
        rcases Memo.holds_cons.mp hr with rfl | hr
        · exact hmem
        · exact hnested r hr

/-- The first of two sound memos holds no more than the second. -/
structure Memo.Within (table : LookupTable) (chain : List String) (memo memo' : Memo) : Prop where
  sound : memo.Sound table chain
  sound' : memo'.Sound table chain
  holds : ∀ r, memo.Holds r → memo'.Holds r

theorem Memo.Within.of_empty {table : LookupTable} {chain : List String} {memo : Memo}
    (hsound : memo.Sound table chain) : Memo.Within table chain [] memo where
  sound := Memo.Sound.empty table chain
  sound' := hsound
  holds r hr := by
    obtain ⟨_, hr⟩ := hr
    cases hr

/-- **A larger memo does no harm.** What is resolved with a memo is resolved to the same value
with a larger one, and leaves a larger one. -/
theorem resolve_simulates (table : LookupTable) (room : Nat) (chain : List String)
    (reference : String) :
    Simulates (Memo.Within table chain) (resolve table room chain · reference)
      (resolve table room chain · reference) := by
  intro memo memo' value m hwithin h
  induction room generalizing chain reference memo memo' value m with
  | zero => cases h
  | succ room ih =>
      obtain ⟨hvalue, hsound⟩ := resolve_eq_ok hwithin.sound h
      obtain ⟨hnew, hcases⟩ := resolve_succ_eq_ok h
      cases hmemo' : memo'.lookup reference with
      | some value' =>
          -- all that resolving remembers is needed by a reference the larger memo holds
          have hsame : value' = value := by
            have hvalue' := hwithin.sound'.value hmemo'
            rw [hvalue, Except.ok.injEq] at hvalue'
            exact hvalue'.symm
          subst hsame
          refine ⟨memo', result_resolve_remembered hnew hmemo', hsound, hwithin.sound', ?_⟩
          exact resolve_within hwithin.sound'.closed ⟨value', hmemo'⟩ hwithin.holds h
      | none =>
          rcases hcases with ⟨hmemo, rfl⟩ | ⟨hmemo, raw, e, m₁, hget, hparse, heval, rfl⟩
          · obtain ⟨value', hmemo⟩ := hwithin.holds reference ⟨value, hmemo⟩
            rw [hmemo'] at hmemo
            cases hmemo
          -- neither memo holds the reference, so both runs evaluate its expression
          have hentered : Memo.Within table (chain ++ [reference]) memo memo' :=
            ⟨hwithin.sound.enter hmemo, hwithin.sound'.enter hmemo', hwithin.holds⟩
          obtain ⟨m₁', heval', hwithin'⟩ :=
            evaluateWith_simulates (fun r _ => ih (chain ++ [reference]) r) _ hentered heval
          have hrun : (resolve table (room + 1) chain memo' reference).result =
              .ok (value, (reference, value) :: m₁') := by
            rw [result_resolve_parsed hnew hmemo' hget hparse, heval']
            rfl
          obtain ⟨-, hsound'⟩ := resolve_eq_ok hwithin.sound' hrun
          refine ⟨_, hrun, hsound, hsound', fun r hr => ?_⟩
          rcases Memo.holds_cons.mp hr with rfl | hr
          · exact Memo.holds_cons.mpr (Or.inl rfl)
          · exact Memo.holds_cons.mpr (Or.inr (hwithin'.holds r hr))

end

/-! ## Sums of two references -/

/-- An expression has a value. -/
def HasValue (table : LookupTable) (e : Expression) : Prop :=
  ∃ value, (evaluate table e).result = .ok value

/-- The expression that adds two references. -/
def Expression.sumOf (a b : String) : Expression :=
  ⟨a ++ "+" ++ b, [.reference a, .operator .add, .reference b], true⟩

theorem Expression.references_sumOf (a b : String) : (sumOf a b).references = [a, b] := rfl

/-- The parts of a sum of two references with these values. -/
def Part.sumOf (va vb : Evaluated) : List Part :=
  [.ofEvaluated va, .operator .add, .ofEvaluated vb]

/-- The sum of two numbers is the same in both orders, and so is its failure. -/
theorem evaluateTerms_add_comm (x y : Decimal) :
    (evaluateTerms [.number x, .operator .add, .number y]).map Decimal.toRat =
      (evaluateTerms [.number y, .operator .add, .number x]).map Decimal.toRat := by
  have hsum : ∀ x y : Decimal,
      (evaluateTerms [.number x, .operator .add, .number y]).map Decimal.toRat =
        (orOverflow (x.add? y)).map Decimal.toRat := fun x y =>
    evaluateTerms_toRat (.plus (.first (.number x)) (.number y))
  rw [hsum, hsum, Decimal.add?, Decimal.add?, add_comm]

/-- Parts have a value if one of them is text, or if their terms do. -/
theorem exists_assemble_iff {parts : List Part} :
    (∃ value, assemble true parts = .ok value) ↔
      parts.any Part.isText = true ∨
        ∃ d, evaluateTerms (parts.filterMap Part.term?) = .ok d := by
  unfold assemble
  cases parts.any Part.isText with
  | true => simp
  | false => cases evaluateTerms (parts.filterMap Part.term?) <;> simp

/-- A sum has a value in both orders or in none. -/
theorem exists_assemble_sumOf_comm {va vb : Evaluated}
    (h : ∃ value, assemble true (Part.sumOf va vb) = .ok value) :
    ∃ value, assemble true (Part.sumOf vb va) = .ok value := by
  rw [exists_assemble_iff] at h ⊢
  cases va with
  | text content => exact Or.inl (by simp [Part.sumOf, Part.ofEvaluated, Part.isText])
  | number x ux =>
      cases vb with
      | text content => exact Or.inl (by simp [Part.sumOf, Part.ofEvaluated, Part.isText])
      | number y uy =>
          rcases h with h | ⟨d, hd⟩
          · simp [Part.sumOf, Part.ofEvaluated, Part.isText] at h
          · rcases map_toRat_eq_iff.mp (evaluateTerms_add_comm x y) with
              ⟨error, hx, -⟩ | ⟨d', d'', -, hy, -⟩
            · cases hd.symm.trans hx
            · exact Or.inr ⟨d'', hy⟩

/-- A single value is a value. -/
theorem exists_assemble_ofEvaluated (v : Evaluated) :
    ∃ value, assemble true [.ofEvaluated v] = .ok value := by
  cases v with
  | number value unit => exact ⟨_, assemble_number value unit⟩
  | text content => exact ⟨_, assemble_text content⟩

section

variable {table : LookupTable} {a b : String}

/-- A value that is given along with a memo. -/
theorem map_fst_bind (x : Except EvalError Evaluated) (memo : Memo) :
    (x.bind fun value => .ok (value, memo)).map Prod.fst = x := by
  cases x <;> rfl

theorem result_evaluate_ofReference (table : LookupTable) (a : String) :
    (evaluate table (.ofReference a)).result =
      (resolve table maxReferenceDepth [] [] a).result.bind fun p =>
        assemble true [.ofEvaluated p.1] := by
  rw [result_evaluate, result_evaluateWith]
  simp only [Expression.atoms_ofReference, resolveAtoms, Traced.result_bind]
  cases (resolve table maxReferenceDepth [] [] a).result with
  | error e => rfl
  | ok p => exact map_fst_bind (assemble true [.ofEvaluated p.1]) p.2

theorem result_evaluate_sumOf (table : LookupTable) (a b : String) :
    (evaluate table (.sumOf a b)).result =
      (resolve table maxReferenceDepth [] [] a).result.bind fun p =>
        (resolve table maxReferenceDepth [] p.2 b).result.bind fun q =>
          assemble true (Part.sumOf p.1 q.1) := by
  rw [result_evaluate, result_evaluateWith]
  simp only [Expression.sumOf, resolveAtoms, Traced.result_bind]
  cases (resolve table maxReferenceDepth [] [] a).result with
  | error e => rfl
  | ok p =>
      simp only [Except.bind, Traced.result_pure]
      cases (resolve table maxReferenceDepth [] p.2 b).result with
      | error e => rfl
      | ok q => exact map_fst_bind (assemble true (Part.sumOf p.1 q.1)) q.2

theorem evaluateAfresh_sumOf (table : LookupTable) (a b : String) :
    evaluateAfresh table none (.sumOf a b) =
      (resolveAfresh table none [] a).bind fun va =>
        (resolveAfresh table none [] b).bind fun vb => assemble true (Part.sumOf va vb) := by
  rw [evaluateAfresh, valueWith, Expression.sumOf]
  simp only [Part.mapM_ofAtom_cons, Part.ofAtom]
  cases resolveAfresh table none [] a with
  | error e => rfl
  | ok va => cases resolveAfresh table none [] b <;> rfl

/-- Without a memo and a limit, a sum succeeds in both orders or in none. -/
theorem exists_evaluateAfresh_sumOf_comm
    (h : ∃ value, evaluateAfresh table none (.sumOf a b) = .ok value) :
    ∃ value, evaluateAfresh table none (.sumOf b a) = .ok value := by
  obtain ⟨value, h⟩ := h
  rw [evaluateAfresh_sumOf] at h ⊢
  obtain ⟨va, ha, h⟩ := except_bind_eq_ok_iff.mp h
  obtain ⟨vb, hb, h⟩ := except_bind_eq_ok_iff.mp h
  obtain ⟨value', h'⟩ := exists_assemble_sumOf_comm ⟨value, h⟩
  exact ⟨value', except_bind_eq_ok_iff.mpr ⟨vb, hb, except_bind_eq_ok_iff.mpr ⟨va, ha, h'⟩⟩⟩

theorem hasValue_ofReference_iff :
    HasValue table (.ofReference a) ↔
      ∃ p, (resolve table maxReferenceDepth [] [] a).result = .ok p := by
  rw [HasValue, result_evaluate_ofReference]
  constructor
  · rintro ⟨value, h⟩
    obtain ⟨p, hp, -⟩ := except_bind_eq_ok_iff.mp h
    exact ⟨p, hp⟩
  · rintro ⟨p, hp⟩
    obtain ⟨value, hvalue⟩ := exists_assemble_ofEvaluated p.1
    exact ⟨value, except_bind_eq_ok_iff.mpr ⟨p, hp, hvalue⟩⟩

/-- The first reference of a sum is resolved as it is alone. -/
theorem HasValue.first (h : HasValue table (.sumOf a b)) : HasValue table (.ofReference a) := by
  obtain ⟨value, h⟩ := h
  rw [result_evaluate_sumOf] at h
  obtain ⟨p, hp, -⟩ := except_bind_eq_ok_iff.mp h
  exact hasValue_ofReference_iff.mpr ⟨p, hp⟩

/-- Where two references have values and evaluation afresh can add them, their sum has a
value: the second is resolved with a larger memo than alone. -/
theorem hasValue_sumOf (hafresh : ∃ value, evaluateAfresh table none (.sumOf a b) = .ok value)
    (ha : HasValue table (.ofReference a)) (hb : HasValue table (.ofReference b)) :
    HasValue table (.sumOf a b) := by
  obtain ⟨⟨va, ma⟩, ha⟩ := hasValue_ofReference_iff.mp ha
  obtain ⟨⟨vb, mb⟩, hb⟩ := hasValue_ofReference_iff.mp hb
  have hempty := Memo.Sound.empty table []
  obtain ⟨hva, hsound⟩ := resolve_eq_ok hempty ha
  obtain ⟨hvb, -⟩ := resolve_eq_ok hempty hb
  obtain ⟨mb', hb', -⟩ := resolve_simulates table maxReferenceDepth [] b (.of_empty hsound) hb
  -- both references have the values that evaluation afresh gives them
  obtain ⟨value, hvalue⟩ := hafresh
  rw [evaluateAfresh_sumOf, hva, hvb] at hvalue
  refine ⟨value, ?_⟩
  rw [result_evaluate_sumOf]
  exact except_bind_eq_ok_iff.mpr ⟨_, ha, except_bind_eq_ok_iff.mpr ⟨_, hb', hvalue⟩⟩

/-- Without a limit to be met, both orders of a sum have the value it has without a memo. -/
theorem hasValue_sumOf_of_short
    (hafresh : ∃ value, evaluateAfresh table none (.sumOf a b) = .ok value)
    (hshort : ∀ chain, table.IsChainFrom (.sumOf a b) chain → chain.length ≤ maxReferenceDepth) :
    HasValue table (.sumOf a b) := by
  obtain ⟨value, hvalue⟩ := hafresh
  have hacyclic : table.IsAcyclicBelow (.sumOf a b) := fun r hr =>
    (evaluateAfresh_reaches hvalue hr).2
  exact ⟨value, by rw [(result_evaluate_of_isAcyclicBelow hacyclic hshort).1, hvalue]⟩

/-- A sum has the same chains in both orders. -/
theorem isChainFrom_sumOf_comm {chain : List String}
    (h : table.IsChainFrom (.sumOf a b) chain) : table.IsChainFrom (.sumOf b a) chain where
  starts r hr := by
    have hstart := h.starts r hr
    rw [Expression.references_sumOf] at hstart ⊢
    exact (List.Perm.swap b a []).mem_iff.mp hstart
  linked := h.linked

/-- What has a value without a memo and a limit can only fail by meeting the limit. -/
theorem hasValue_or_endsInCycle {e : Expression}
    (hafresh : ∃ value, evaluateAfresh table none e = .ok value) :
    HasValue table e ∨ EndsInCycle (evaluate table e).result := by
  obtain ⟨value, hvalue⟩ := hafresh
  rcases evaluate_eq_or_cycle table e with hsame | ⟨hcycle, -⟩
  · exact Or.inl ⟨value, by rw [hsame, hvalue]⟩
  · exact Or.inr hcycle

/-- **The order of the terms matters only at the limit on chains.** Take a sum of two
references that has a value without a memo and a limit. An order can succeed only if its
first reference succeeds alone, and both orders succeed exactly when both references succeed
alone. So the orders agree unless one of them succeeds with a second reference that alone
meets the limit. They both succeed if no chain is longer than the limit, and an order that
does not succeed ends in a cycle. -/
theorem evaluate_sumOf_comm
    (hafresh : ∃ value, evaluateAfresh table none (.sumOf a b) = .ok value) :
    ((HasValue table (.sumOf a b) → HasValue table (.ofReference a)) ∧
      (HasValue table (.sumOf b a) → HasValue table (.ofReference b))) ∧
    (HasValue table (.sumOf a b) ∧ HasValue table (.sumOf b a) ↔
      HasValue table (.ofReference a) ∧ HasValue table (.ofReference b)) ∧
    ((HasValue table (.sumOf a b) ↔ HasValue table (.sumOf b a)) ↔
      (HasValue table (.sumOf a b) → HasValue table (.ofReference b)) ∧
      (HasValue table (.sumOf b a) → HasValue table (.ofReference a))) ∧
    ((∀ chain, table.IsChainFrom (.sumOf a b) chain → chain.length ≤ maxReferenceDepth) →
      HasValue table (.sumOf a b) ∧ HasValue table (.sumOf b a)) ∧
    ∀ e ∈ [Expression.sumOf a b, .sumOf b a],
      HasValue table e ∨ EndsInCycle (evaluate table e).result := by
  have hafresh' := exists_evaluateAfresh_sumOf_comm hafresh
  refine ⟨⟨HasValue.first, HasValue.first⟩, ⟨?_, ?_⟩, ⟨?_, ?_⟩, ?_, ?_⟩
  · rintro ⟨hab, hba⟩
    exact ⟨hab.first, hba.first⟩
  · rintro ⟨ha, hb⟩
    exact ⟨hasValue_sumOf hafresh ha hb, hasValue_sumOf hafresh' hb ha⟩
  · intro hiff
    exact ⟨fun hab => (hiff.mp hab).first, fun hba => (hiff.mpr hba).first⟩
  · rintro ⟨hb, ha⟩
    constructor
    · intro hab
      exact hasValue_sumOf hafresh' (hb hab) hab.first
    · intro hba
      exact hasValue_sumOf hafresh (ha hba) hba.first
  · intro hshort
    exact ⟨hasValue_sumOf_of_short hafresh hshort,
      hasValue_sumOf_of_short hafresh' fun chain h => hshort chain (isChainFrom_sumOf_comm h)⟩
  · intro e he
    rcases List.mem_pair.mp he with rfl | rfl
    · exact hasValue_or_endsInCycle hafresh
    · exact hasValue_or_endsInCycle hafresh'

end

/-- The sum of two references that share a third. -/
theorem evaluate_sumOf_comm_shared :
    (∃ value, evaluateAfresh sharedTable none (.sumOf "{b}" "{c}") = .ok value) ∧
      (∀ chain, sharedTable.IsChainFrom (.sumOf "{b}" "{c}") chain →
        chain.length ≤ maxReferenceDepth) ∧
      HasValue sharedTable (.sumOf "{b}" "{c}") ∧ HasValue sharedTable (.sumOf "{c}" "{b}") := by
  have hvalue : (evaluate sharedTable (.sumOf "{b}" "{c}")).result =
      .ok (.number ⟨10, 0, by decide, by decide⟩ (some "px")) := by
    decide +kernel
  have hafresh := evaluateAfresh_of_evaluate hvalue
  have hshort : ∀ chain, sharedTable.IsChainFrom (.sumOf "{b}" "{c}") chain →
      chain.length ≤ maxReferenceDepth := by
    intro chain hchain
    have hbound : ∀ r ∈ (Expression.sumOf "{b}" "{c}").references,
        sharedTable.rankBefore r < 4 := by
      decide +kernel
    have hlength := hchain.length_le_of_rank sharedTable_isRankedBy hbound
    exact hlength.trans (by decide)
  obtain ⟨-, -, -, hboth, -⟩ := evaluate_sumOf_comm ⟨_, hafresh⟩
  exact ⟨⟨_, hafresh⟩, hshort, hboth hshort⟩

/-- The reference with this number. -/
def link (n : Nat) : String := referenceTo n.repr

/-- A chain of references that is one longer than the limit, each worth the next; the last is
worth 1. -/
def longTable : LookupTable :=
  ⟨(List.range maxReferenceDepth).map (fun n => (link n, link (n + 1))) ++
    [(link maxReferenceDepth, "1")]⟩

theorem evaluate_longTable :
    (evaluate longTable (.sumOf (link 0) (link 1))).result =
        .error (.referenceCycle ((List.range (maxReferenceDepth + 1)).map link)) ∧
      (evaluate longTable (.sumOf (link 1) (link 0))).result =
        .ok (.number ⟨2, 0, by decide, by decide⟩ none) := by
  decide +kernel

/-- The chain of the first reference is too long, unless the second was resolved before. -/
theorem hasValue_sumOf_depends_on_order :
    (∃ value, evaluateAfresh longTable none (.sumOf (link 0) (link 1)) = .ok value) ∧
      ¬(HasValue longTable (.sumOf (link 0) (link 1)) ↔
        HasValue longTable (.sumOf (link 1) (link 0))) := by
  obtain ⟨hcycle, hvalue⟩ := evaluate_longTable
  refine ⟨exists_evaluateAfresh_sumOf_comm ⟨_, evaluateAfresh_of_evaluate hvalue⟩, fun hiff => ?_⟩
  obtain ⟨value, hother⟩ := hiff.mpr ⟨_, hvalue⟩
  rw [hcycle] at hother
  cases hother

end DesignTokens
