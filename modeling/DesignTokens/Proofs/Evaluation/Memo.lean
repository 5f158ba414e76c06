import DesignTokens.Proofs.Evaluation.Afresh

set_option autoImplicit false

/-! # The memo of an evaluation

`evaluate` remembers the value of every reference it has resolved. The invariant of its memo
is `Memo.Sound`: each remembered value is what evaluation without a memo gives below the
current chain, and the references of a remembered reference are remembered as well. The
second half makes the first independent of the chain: a reference about to be entered is not
remembered, so no remembered value needs it (`Memo.Sound.of_chain`).

`Agrees` compares three results for one reference or expression: with a memo, without one,
and without one but with the limit on chains. `resolve_agrees` proves it for every memo that
is sound, by induction on the references that may still be entered.
-/

namespace DesignTokens

namespace Memo

/-- A reference is remembered. -/
def Holds (memo : Memo) (reference : String) : Prop := ∃ value, memo.lookup reference = some value

/-- What is remembered below `chain` is what evaluation afresh gives there. -/
structure Sound (table : LookupTable) (chain : List String) (memo : Memo) : Prop where
  value : ∀ {reference value}, memo.lookup reference = some value →
    resolveAfresh table none chain reference = .ok value
  closed : table.IsClosed memo.Holds

theorem holds_cons {memo : Memo} {reference : String} {value : Evaluated} {r : String} :
    Holds ((reference, value) :: memo) r ↔ r = reference ∨ memo.Holds r := by
  unfold Holds
  rw [List.lookup_cons]
  by_cases h : r = reference
  · simp [h]
  · simp [h, beq_eq_false_iff_ne.mpr h]

namespace Sound

variable {table : LookupTable} {chain chain' : List String} {memo : Memo}

theorem empty (table : LookupTable) (chain : List String) : Sound table chain [] where
  value h := by cases h
  closed h := by
    obtain ⟨value, h⟩ := h
    cases h

/-- A sound memo stays sound below another chain, unless that chain holds a remembered
reference. -/
theorem of_chain (hsound : Sound table chain memo)
    (hchain : ∀ r, memo.Holds r → r ∈ chain' → r ∈ chain) : Sound table chain' memo where
  value {_ value} h := resolveAfresh_of_chain hsound.closed hchain ⟨value, h⟩ (hsound.value h)
  closed := hsound.closed

/-- The memo stays sound when a reference that is not remembered is entered. -/
theorem enter (hsound : Sound table chain memo) {reference : String}
    (hnew : memo.lookup reference = none) : Sound table (chain ++ [reference]) memo := by
  refine hsound.of_chain fun r hr hmem => ?_
  rcases List.mem_append.mp hmem with hmem | hmem
  · exact hmem
  · obtain ⟨value, hr⟩ := hr
    rw [List.mem_singleton.mp hmem, hnew] at hr
    cases hr

/-- The memo stays sound when a reference is left. -/
theorem leave {reference : String} (hsound : Sound table (chain ++ [reference]) memo) :
    Sound table chain memo :=
  hsound.of_chain fun _ _ hmem => List.mem_append_left _ hmem

/-- The memo stays sound when the value of a reference is added, if the references it needs
are remembered. -/
theorem add (hsound : Sound table chain memo) {reference raw : String} {e : Expression}
    {value : Evaluated} (hvalue : resolveAfresh table none chain reference = .ok value)
    (hget : table.get? reference = some raw) (hparse : Expression.parse raw = .ok e)
    (hrefs : ∀ r ∈ e.references, memo.Holds r) :
    Sound table chain ((reference, value) :: memo) where
  value {r v} h := by
    by_cases hr : r = reference
    · subst hr
      rw [List.lookup_cons_self, Option.some.injEq] at h
      rw [← h, hvalue]
    · rw [List.lookup_cons, beq_eq_false_iff_ne.mpr hr] at h
      exact hsound.value h
  closed {r r'} hr hrefers := by
    refine holds_cons.mpr (Or.inr ?_)
    rcases holds_cons.mp hr with rfl | hr
    · exact hrefs r' ((LookupTable.refers_iff hget hparse).mp hrefers)
    · exact hsound.closed hr hrefers

end Sound

end Memo

/-- How the result of a computation with a memo is related to its result without one, and to
that under a limit on chains. References are the ones the computation needs. -/
inductive Agrees {α : Type} (table : LookupTable) (chain : List String) (memo : Memo)
    (references : List String) :
    Except EvalError (α × Memo) → Except EvalError α → Except EvalError α → Prop
  | ok {a : α} {memo' : Memo} {limited : Except EvalError α} (hsound : memo'.Sound table chain)
      (hextends : ∀ r, memo.Holds r → memo'.Holds r) (hrefs : ∀ r ∈ references, memo'.Holds r) :
      Agrees table chain memo references (.ok (a, memo')) (.ok a) limited
  | error (e : EvalError) {limited : Except EvalError α} :
      Agrees table chain memo references (.error e) (.error e) limited
  | cycle (cycle : List String) {afresh limited : Except EvalError α}
      (hlimited : EndsInCycle limited) :
      Agrees table chain memo references (.error (.referenceCycle cycle)) afresh limited

namespace Agrees

variable {α β : Type} {table : LookupTable} {chain : List String} {memo : Memo}
  {references references' : List String} {x : Except EvalError (α × Memo)}
  {afresh limited : Except EvalError α}

theorem eq_or_cycle (h : Agrees table chain memo references x afresh limited) :
    x.map Prod.fst = afresh ∨ EndsInCycle x ∧ EndsInCycle limited := by
  cases h with
  | ok => exact Or.inl rfl
  | error e => exact Or.inl rfl
  | cycle cycle hlimited => exact Or.inr ⟨⟨cycle, rfl⟩, hlimited⟩

/-- A step that needs no references. -/
theorem map (h : Agrees table chain memo references x afresh limited) (f : α → β) :
    Agrees table chain memo references (x.map fun p => (f p.1, p.2)) (afresh.map f)
      (limited.map f) := by
  cases h with
  | ok hsound hextends hrefs => exact ok hsound hextends hrefs
  | error e => exact error e
  | cycle cycle hlimited => exact Agrees.cycle cycle (hlimited.map f)

/-- Two steps one after the other. -/
theorem bind {next : α × Memo → Except EvalError (β × Memo)}
    {nextAfresh nextLimited : α → Except EvalError β}
    (h : Agrees table chain memo references x afresh limited)
    (hlimited : limited = afresh ∨ EndsInCycle limited)
    (hnext : ∀ a memo', memo'.Sound table chain →
      Agrees table chain memo' references' (next (a, memo')) (nextAfresh a) (nextLimited a)) :
    Agrees table chain memo (references ++ references') (x.bind next) (afresh.bind nextAfresh)
      (limited.bind nextLimited) := by
  cases h with
  | error e => exact error e
  | cycle cycle hcycle => exact Agrees.cycle cycle (hcycle.bind _)
  | @ok a memo' _ hsound hextends hrefs =>
      have hstep := hnext a memo' hsound
      show Agrees table chain memo _ (next (a, memo')) (nextAfresh a) _
      generalize next (a, memo') = y at hstep ⊢
      generalize nextAfresh a = afresh' at hstep ⊢
      cases hstep with
      | error e => exact error e
      | ok hsound' hextends' hrefs' =>
          refine ok hsound' (fun r hr => hextends' r (hextends r hr)) fun r hr => ?_
          rcases List.mem_append.mp hr with hr | hr
          · exact hextends' r (hrefs r hr)
          · exact hrefs' r hr
      | cycle cycle hcycle =>
          -- under the limit the second step ends in a cycle, unless the first did already
          rcases hlimited with rfl | hlimited
          · exact Agrees.cycle cycle hcycle
          · exact Agrees.cycle cycle (hlimited.bind _)

/-- Leaving a reference remembers its value. -/
theorem remember {memo : Memo} {reference raw : String} {e : Expression}
    {y : Except EvalError (Evaluated × Memo)} {limited : Except EvalError Evaluated}
    (h : Agrees table (chain ++ [reference]) memo e.references y
      (resolveAfresh table none chain reference) limited)
    (hget : table.get? reference = some raw) (hparse : Expression.parse raw = .ok e) :
    Agrees table chain memo [reference] (y.bind fun p => .ok (p.1, (reference, p.1) :: p.2))
      (resolveAfresh table none chain reference) limited := by
  generalize hvalue : resolveAfresh table none chain reference = afresh at h ⊢
  cases h with
  | error e => exact error e
  | cycle cycle hlimited => exact Agrees.cycle cycle hlimited
  | ok hsound hextends hrefs =>
      refine ok (hsound.leave.add hvalue hget hparse hrefs) ?_ ?_
      · intro r hr
        exact Memo.holds_cons.mpr (Or.inr (hextends r hr))
      · intro r hr
        exact Memo.holds_cons.mpr (Or.inl (List.mem_singleton.mp hr))

/-- A step that does not look at the memo. -/
theorem ofExcept (hsound : memo.Sound table chain) (y : Except EvalError α) :
    Agrees table chain memo [] (y.bind fun a => .ok (a, memo)) y y := by
  cases y with
  | error e => exact error e
  | ok a => exact ok hsound (fun _ h => h) fun r hr => absurd hr List.not_mem_nil

end Agrees

theorem result_evaluateWith (resolve : Memo → String → Traced EvalError (Evaluated × Memo))
    (depth : Nat) (memo : Memo) (e : Expression) :
    (evaluateWith resolve depth memo e).result =
      (resolveAtoms resolve memo e.atoms).result.bind fun p =>
        (assemble e.numeric p.1).bind fun value => .ok (value, p.2) := by
  simp only [evaluateWith, Traced.result_bind, Traced.result_report, Traced.result_ofExcept]
  rfl

section

variable {table : LookupTable} {chain : List String} {f g : String → Except EvalError Evaluated}
  {resolve : Memo → String → Traced EvalError (Evaluated × Memo)}

/-- The parts of atoms agree if the values of references do. -/
theorem resolveAtoms_agrees (hlimited : ∀ r, g r = f r ∨ EndsInCycle (g r))
    (hresolve : ∀ memo r, memo.Sound table chain →
      Agrees table chain memo [r] (resolve memo r).result (f r) (g r))
    {memo : Memo} (hsound : memo.Sound table chain) (atoms : List Atom) :
    Agrees table chain memo (atoms.filterMap Atom.reference?)
      (resolveAtoms resolve memo atoms).result (atoms.mapM (Part.ofAtom f))
      (atoms.mapM (Part.ofAtom g)) := by
  induction atoms generalizing memo with
  | nil => exact .ok hsound (fun _ h => h) (fun r hr => absurd hr List.not_mem_nil)
  | cons atom atoms ih =>
      rw [Part.mapM_ofAtom_cons, Part.mapM_ofAtom_cons]
      cases atom with
      | operator op =>
          rw [resolveAtoms, Traced.result_bind]
          exact (ih hsound).map _
      | number value unit text =>
          rw [resolveAtoms, Traced.result_bind]
          exact (ih hsound).map _
      | verbatim text =>
          rw [resolveAtoms, Traced.result_bind]
          exact (ih hsound).map _
      | reference r =>
          rw [resolveAtoms, Traced.result_bind, Part.bind_ofAtom_reference,
            Part.bind_ofAtom_reference]
          refine (hresolve memo r hsound).bind (hlimited r) fun value memo' hsound' => ?_
          rw [Traced.result_bind]
          exact (ih hsound').map _

theorem evaluateWith_agrees (hlimited : ∀ r, g r = f r ∨ EndsInCycle (g r))
    (hresolve : ∀ memo r, memo.Sound table chain →
      Agrees table chain memo [r] (resolve memo r).result (f r) (g r))
    {memo : Memo} (hsound : memo.Sound table chain) (depth : Nat) (e : Expression) :
    Agrees table chain memo e.references (evaluateWith resolve depth memo e).result
      (valueWith f e) (valueWith g e) := by
  rw [result_evaluateWith, ← List.append_nil e.references]
  exact (resolveAtoms_agrees hlimited hresolve hsound e.atoms).bind
    (Part.mapM_ofAtom_eq_or_cycle hlimited e.atoms)
    fun parts memo' hsound' => .ofExcept hsound' (assemble e.numeric parts)

end

/-! ## Resolving a reference -/

section

variable {table : LookupTable} {room : Nat} {chain : List String} {memo : Memo}
  {reference : String}

theorem result_resolve_cycle (hmem : chain.contains reference = true) :
    (resolve table (room + 1) chain memo reference).result =
      .error (.referenceCycle (chain ++ [reference])) := by
  rw [resolve, if_pos hmem]
  rfl

theorem result_resolve_remembered {value : Evaluated} (hmem : chain.contains reference = false)
    (hmemo : memo.lookup reference = some value) :
    (resolve table (room + 1) chain memo reference).result = .ok (value, memo) := by
  rw [resolve, if_neg (Bool.eq_false_iff.mp hmem), hmemo]
  rfl

theorem result_resolve_missing (hmem : chain.contains reference = false)
    (hmemo : memo.lookup reference = none) (hget : table.get? reference = none) :
    (resolve table (room + 1) chain memo reference).result =
      .error (.referenceNotFound reference) := by
  rw [resolve, if_neg (Bool.eq_false_iff.mp hmem), hmemo, hget]
  rfl

theorem result_resolve_unreadable {raw : String} {cause : ParseError}
    (hmem : chain.contains reference = false) (hmemo : memo.lookup reference = none)
    (hget : table.get? reference = some raw) (hparse : Expression.parse raw = .error cause) :
    (resolve table (room + 1) chain memo reference).result = .error (.unreadable cause) := by
  rw [resolve, if_neg (Bool.eq_false_iff.mp hmem), hmemo, hget]
  simp only [Traced.result_bind, Traced.result_mapError, Expression.result_read, hparse]
  rfl

/-- A reference that is entered has the value of its expression, which is remembered. -/
theorem result_resolve_parsed {raw : String} {e : Expression}
    (hmem : chain.contains reference = false) (hmemo : memo.lookup reference = none)
    (hget : table.get? reference = some raw) (hparse : Expression.parse raw = .ok e) :
    (resolve table (room + 1) chain memo reference).result =
      (evaluateWith (resolve table room (chain ++ [reference])) (chain ++ [reference]).length
        memo e).result.bind fun p => .ok (p.1, (reference, p.1) :: p.2) := by
  rw [resolve, if_neg (Bool.eq_false_iff.mp hmem), hmemo, hget]
  simp only [Traced.result_bind, Traced.result_mapError, Expression.result_read, hparse]
  rfl

end

/-- Resolving a reference with a sound memo agrees with resolving it afresh, without a limit
on chains and with the limit that `room` leaves. -/
theorem resolve_agrees (table : LookupTable) (limit : Nat) (room : Nat) (chain : List String)
    (hroom : chain.length + room = limit) (memo : Memo) (reference : String)
    (hsound : memo.Sound table chain) :
    Agrees table chain memo [reference] (resolve table room chain memo reference).result
      (resolveAfresh table none chain reference)
      (resolveAfresh table (some limit) chain reference) := by
  induction room generalizing chain memo reference with
  | zero =>
      -- no room is left, so the chain has reached the limit
      have hfull : closesCycle (some limit) chain reference = true := by
        simp [closesCycle, isFull, ← hroom]
      exact .cycle _ ⟨_, resolveAfresh_cycle hfull⟩
  | succ room ih =>
      by_cases hmem : chain.contains reference = true
      · have hcycle : closesCycle (some limit) chain reference = true := by
          rw [closesCycle, hmem, Bool.true_or]
        rw [result_resolve_cycle hmem]
        exact .cycle _ ⟨_, resolveAfresh_cycle hcycle⟩
      have hmem := Bool.eq_false_iff.mpr hmem
      -- a chain that leaves room is not full
      have hopen : closesCycle (some limit) chain reference = false := by
        simp only [closesCycle, isFull, Option.any_some, Bool.or_eq_false_iff,
          decide_eq_false_iff_not]
        exact ⟨hmem, by omega⟩
      have hnone := closesCycle_none_of_false hopen
      cases hmemo : memo.lookup reference with
      | some value =>
          rw [result_resolve_remembered hmem hmemo, hsound.value hmemo]
          refine .ok hsound (fun _ h => h) fun r hr => ?_
          rw [List.mem_singleton.mp hr]
          exact ⟨value, hmemo⟩
      | none =>
          cases hget : table.get? reference with
          | none =>
              rw [result_resolve_missing hmem hmemo hget, resolveAfresh_missing hnone hget,
                resolveAfresh_missing hopen hget]
              exact .error _
          | some raw =>
              cases hparse : Expression.parse raw with
              | error cause =>
                  rw [result_resolve_unreadable hmem hmemo hget hparse,
                    resolveAfresh_unreadable hnone hget hparse,
                    resolveAfresh_unreadable hopen hget hparse]
                  exact .error _
              | ok e =>
                  -- the value is the expression's, one reference further down the chain
                  have hlength : (chain ++ [reference]).length + room = limit := by
                    rw [List.length_append, List.length_singleton]
                    omega
                  have hinner := evaluateWith_agrees
                    (resolveAfresh_eq_or_cycle table (some limit) (chain ++ [reference]))
                    (ih (chain ++ [reference]) hlength) (hsound.enter hmemo)
                    (chain ++ [reference]).length e
                  rw [← resolveAfresh_parsed hnone hget hparse,
                    ← resolveAfresh_parsed hopen hget hparse] at hinner
                  rw [result_resolve_parsed hmem hmemo hget hparse]
                  exact hinner.remember hget hparse

theorem result_evaluate (table : LookupTable) (e : Expression) :
    (evaluate table e).result =
      (evaluateWith (resolve table maxReferenceDepth []) 0 [] e).result.map Prod.fst := by
  rw [evaluate, Traced.result_bind]
  cases (evaluateWith (resolve table maxReferenceDepth []) 0 [] e).result <;> rfl

/-- The result of an evaluation is what its parts make. -/
theorem result_evaluate_of_resolveAtoms {table : LookupTable} {e : Expression}
    {parts : List Part} {m : Memo}
    (h : (resolveAtoms (resolve table maxReferenceDepth []) [] e.atoms).result = .ok (parts, m)) :
    (evaluate table e).result = assemble e.numeric parts := by
  rw [result_evaluate, result_evaluateWith, h]
  show ((assemble e.numeric parts).bind fun value => .ok (value, m)).map Prod.fst = _
  cases assemble e.numeric parts <;> rfl

/-- Evaluation gives what evaluation afresh without a limit gives, unless it ends in a cycle;
then evaluation afresh with the limit does so too. -/
theorem evaluate_eq_or_cycle (table : LookupTable) (e : Expression) :
    (evaluate table e).result = evaluateAfresh table none e ∨
      EndsInCycle (evaluate table e).result ∧
        EndsInCycle (evaluateAfresh table (some maxReferenceDepth) e) := by
  have hagrees := evaluateWith_agrees
    (resolveAfresh_eq_or_cycle table (some maxReferenceDepth) [])
    (resolve_agrees table maxReferenceDepth maxReferenceDepth [] (Nat.zero_add _))
    (Memo.Sound.empty table []) 0 e
  rw [result_evaluate]
  rcases hagrees.eq_or_cycle with heq | ⟨hcycle, hlimited⟩
  · exact Or.inl heq
  · exact Or.inr ⟨hcycle.map _, hlimited⟩

/-- **The memo changes nothing but the cost.** A result of evaluation afresh under the limit
on chains is the result of evaluation, unless it is a cycle; and a result of evaluation is
the result of evaluation afresh without that limit, unless it is a cycle. -/
theorem evaluate_eq_evaluateAfresh (table : LookupTable) (e : Expression) :
    (¬EndsInCycle (evaluateAfresh table (some maxReferenceDepth) e) →
      (evaluate table e).result = evaluateAfresh table (some maxReferenceDepth) e) ∧
    (¬EndsInCycle (evaluate table e).result →
      evaluateAfresh table none e = (evaluate table e).result) := by
  constructor
  · intro hnot
    rcases evaluate_eq_or_cycle table e with heq | ⟨-, hlimited⟩
    · rcases evaluateAfresh_eq_or_cycle table (some maxReferenceDepth) e with hsame | hcycle
      · rw [heq, hsame]
      · exact absurd hcycle hnot
    · exact absurd hlimited hnot
  · intro hnot
    rcases evaluate_eq_or_cycle table e with heq | ⟨hcycle, -⟩
    · exact heq.symm
    · exact absurd hcycle hnot

/-- A reference that is reached on three paths. -/
def sharedTable : LookupTable :=
  ⟨[("{a}", "{b}+{c}"), ("{b}", "{d}*2"), ("{c}", "{d}+1"), ("{d}", "3px")]⟩

/-- `{a}-{d}` -/
def sharedExpression : Expression :=
  ⟨"{a}-{d}", [.reference "{a}", .operator .subtract, .reference "{d}"], true⟩

theorem evaluate_sharedExpression :
    (evaluate sharedTable sharedExpression).result.map Evaluated.display = .ok "7px" ∧
      ¬EndsInCycle (evaluateAfresh sharedTable (some maxReferenceDepth) sharedExpression) ∧
      (evaluate sharedTable sharedExpression).result =
        evaluateAfresh sharedTable (some maxReferenceDepth) sharedExpression ∧
      ¬EndsInCycle (evaluate sharedTable sharedExpression).result ∧
      evaluateAfresh sharedTable none sharedExpression =
        (evaluate sharedTable sharedExpression).result := by
  have hvalue : (evaluate sharedTable sharedExpression).result.map Evaluated.display =
      .ok "7px" := by
    decide +kernel
  have hafresh : ¬EndsInCycle
      (evaluateAfresh sharedTable (some maxReferenceDepth) sharedExpression) := by
    decide +kernel
  have hmemo : ¬EndsInCycle (evaluate sharedTable sharedExpression).result := by
    decide +kernel
  have hboth := evaluate_eq_evaluateAfresh sharedTable sharedExpression
  exact ⟨hvalue, hafresh, hboth.1 hafresh, hmemo, hboth.2 hmemo⟩

end DesignTokens
