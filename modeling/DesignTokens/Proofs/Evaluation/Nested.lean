import DesignTokens.Proofs.Evaluation.Cycles

set_option autoImplicit false

/-! # Nested evaluations

While an expression is evaluated, the expressions of its references are evaluated below it.
`nestedEvaluations` lists these nested evaluations in the order in which they begin, each with
the reference it belongs to, and `evaluate_enters_once` says that they are the events of the
evaluation, that they belong to different references, and that an evaluation with a value has
one for each reference it leads to.

At every point of an evaluation the references that were entered so far are in progress or
remembered, and a reference that is one or the other is not entered again. So the list of a
step is disjoint from the chain and the memo the step begins with (`EntersOnce`), and the memo
it ends with holds exactly what the list adds (`Records`).
-/

namespace DesignTokens

/-! ## The list of nested evaluations -/

/-- The evaluation of the expression of a reference. -/
structure NestedEvaluation where
  reference : String
  /-- The text of the expression without blanks. -/
  source : String
  /-- The number of references in progress, this one included. -/
  depth : Nat
  deriving DecidableEq, Repr

/-- The event that a nested evaluation begins with. -/
def NestedEvaluation.event (n : NestedEvaluation) : Event := .evaluating n.source n.depth

/-- Whether an event begins an evaluation below a reference. -/
def Event.isNested : Event → Bool
  | evaluating _ depth => 0 < depth
  | _ => false

/-- The expression that resolving a reference evaluates. There is none if the reference is in
progress or remembered, or if it has no value that can be read. -/
def entered? (table : LookupTable) (chain : List String) (memo : Memo) (reference : String) :
    Option Expression :=
  if chain.contains reference || (memo.lookup reference).isSome then none
  else (table.get? reference).bind fun raw => (Expression.parse raw).toOption

/-- The nested evaluations of some references, each resolved with the memo that the one before
left. -/
def nestedOf (resolve : Memo → String → Traced EvalError (Evaluated × Memo))
    (nested : Memo → String → List NestedEvaluation) : Memo → List String → List NestedEvaluation
  | _, [] => []
  | memo, reference :: references =>
    nested memo reference ++
      match (resolve memo reference).result with
      | .ok (_, memo) => nestedOf resolve nested memo references
      | .error _ => []

/-- The nested evaluations of a reference below the references of `chain`, its own first. -/
def nestedBelow (table : LookupTable) :
    (room : Nat) → (chain : List String) → Memo → String → List NestedEvaluation
  | 0, _, _, _ => []
  | room + 1, chain, memo, reference =>
    match entered? table chain memo reference with
    | none => []
    | some e =>
      let chain := chain ++ [reference]
      ⟨reference, e.source, chain.length⟩ ::
        nestedOf (resolve table room chain) (nestedBelow table room chain) memo e.references

/-- The nested evaluations of an expression. -/
def nestedEvaluations (table : LookupTable) (e : Expression) : List NestedEvaluation :=
  nestedOf (resolve table maxReferenceDepth []) (nestedBelow table maxReferenceDepth []) []
    e.references

/-! ## Single steps -/

section

variable {table : LookupTable} {chain : List String} {memo : Memo} {reference : String}
  {e : Expression}

theorem entered?_eq_some_iff :
    entered? table chain memo reference = some e ↔
      reference ∉ chain ∧ memo.lookup reference = none ∧
        ∃ raw, table.get? reference = some raw ∧ Expression.parse raw = .ok e := by
  have hread : ∀ x : Except ParseError Expression, x.toOption = some e ↔ x = .ok e := by
    intro x
    cases x <;> simp [Except.toOption]
  rw [entered?]
  by_cases hmem : reference ∈ chain
  · simp [hmem]
  · cases memo.lookup reference with
    | some value => simp
    | none => simp [hmem, Option.bind_eq_some_iff, hread]

/-- A reference that is not entered leaves no event and the memo as it is. -/
theorem resolve_of_entered?_eq_none (h : entered? table chain memo reference = none)
    (room : Nat) :
    (resolve table (room + 1) chain memo reference).events = [] ∧
      ∀ value m, (resolve table (room + 1) chain memo reference).result = .ok (value, m) →
        m = memo := by
  rw [resolve]
  rw [entered?] at h
  by_cases hmem : chain.contains reference = true
  · rw [if_pos hmem]
    exact ⟨rfl, fun value m h => by cases h⟩
  rw [if_neg hmem]
  rw [Bool.eq_false_iff.mpr hmem, Bool.false_or] at h
  cases hmemo : memo.lookup reference with
  | some value =>
      refine ⟨rfl, fun value m h => ?_⟩
      cases h
      rfl
  | none =>
      rw [hmemo] at h
      cases hget : table.get? reference with
      | none => exact ⟨rfl, fun value m h => by cases h⟩
      | some raw =>
          cases hparse : Expression.parse raw with
          | ok e =>
              rw [hget] at h
              simp [hparse, Except.toOption] at h
          | error cause =>
              have hread : ((Expression.read raw).mapError EvalError.unreadable).result =
                  .error (.unreadable cause) := by
                rw [Traced.result_mapError, Expression.result_read, hparse]
                rfl
              have hsilent : (Expression.read raw).events = [] := by
                rw [Expression.read, hparse]
              refine ⟨?_, fun value m h => ?_⟩
              · simp only [Traced.events_bind_error hread, Traced.events_mapError, hsilent]
              · simp only [Traced.result_bind, hread] at h
                cases h

theorem events_evaluateWith (resolve : Memo → String → Traced EvalError (Evaluated × Memo))
    (depth : Nat) (memo : Memo) (e : Expression) :
    (evaluateWith resolve depth memo e).events =
      .evaluating e.source depth :: (resolveAtoms resolve memo e.atoms).events := by
  rw [evaluateWith, Traced.events_bind_ok (Traced.result_report _), Traced.events_report,
    List.singleton_append]
  congr 1
  refine Traced.events_bind_of_silent fun p => ?_
  exact Traced.events_bind_of_silent fun value => rfl

/-- A reference that is entered reports the warnings of its expression and its evaluation. -/
theorem events_resolve_of_entered? (h : entered? table chain memo reference = some e)
    (room : Nat) :
    (resolve table (room + 1) chain memo reference).events =
      e.warnings ++ .evaluating e.source (chain ++ [reference]).length ::
        (resolveAtoms (resolve table room (chain ++ [reference])) memo e.atoms).events := by
  obtain ⟨hmem, hmemo, raw, hget, hparse⟩ := entered?_eq_some_iff.mp h
  have hread : ((Expression.read raw).mapError EvalError.unreadable).result = .ok e := by
    rw [Traced.result_mapError, Expression.result_read, hparse]
    rfl
  have hwarnings : (Expression.read raw).events = e.warnings := by
    rw [Expression.read, hparse]
  rw [resolve, if_neg (by simpa using hmem), hmemo, hget]
  simp only [Traced.events_bind_ok hread, Traced.events_mapError, hwarnings]
  rw [Traced.events_bind_of_silent fun p => rfl, events_evaluateWith]

end

/-! ## What a step records -/

/-- The references that nested evaluations belong to. -/
def referencesOf (nested : List NestedEvaluation) : List String := nested.map (·.reference)

theorem referencesOf_append (nested nested' : List NestedEvaluation) :
    referencesOf (nested ++ nested') = referencesOf nested ++ referencesOf nested' :=
  List.map_append

/-- Nested evaluations of different references, none of them in progress or remembered, at
depths that the chain leaves room for. -/
structure EntersOnce (chain : List String) (room : Nat) (memo : Memo)
    (nested : List NestedEvaluation) : Prop where
  nodup : (referencesOf nested).Nodup
  notInProgress : ∀ r ∈ referencesOf nested, r ∉ chain
  notRemembered : ∀ r ∈ referencesOf nested, ¬memo.Holds r
  depth : ∀ n ∈ nested, chain.length < n.depth ∧ n.depth ≤ chain.length + room

/-- The second memo holds what the first one holds and the given references. -/
def Memo.GrowsBy (memo memo' : Memo) (references : List String) : Prop :=
  ∀ r, memo'.Holds r ↔ memo.Holds r ∨ r ∈ references

theorem Memo.growsBy_nil (memo : Memo) : memo.GrowsBy memo [] := by
  simp [GrowsBy]

theorem Memo.GrowsBy.append {memo memo' memo'' : Memo} {references references' : List String}
    (h : memo.GrowsBy memo' references) (h' : memo'.GrowsBy memo'' references') :
    memo.GrowsBy memo'' (references ++ references') := by
  intro r
  rw [h' r, h r, List.mem_append, or_assoc]

namespace EntersOnce

variable {chain : List String} {room : Nat} {memo memo' : Memo}
  {nested nested' : List NestedEvaluation}

theorem nil : EntersOnce chain room memo [] where
  nodup := List.nodup_nil
  notInProgress _ h := by cases h
  notRemembered _ h := by cases h
  depth _ h := by cases h

/-- What is entered later is new to the memo that the earlier references were added to. -/
theorem append (h : EntersOnce chain room memo nested)
    (hgrows : memo.GrowsBy memo' (referencesOf nested))
    (h' : EntersOnce chain room memo' nested') : EntersOnce chain room memo (nested ++ nested') where
  nodup := by
    rw [referencesOf_append]
    refine List.Nodup.append h.nodup h'.nodup fun r hr hr' => ?_
    exact h'.notRemembered r hr' ((hgrows r).mpr (Or.inr hr))
  notInProgress r hr := by
    rw [referencesOf_append, List.mem_append] at hr
    rcases hr with hr | hr
    · exact h.notInProgress r hr
    · exact h'.notInProgress r hr
  notRemembered r hr := by
    rw [referencesOf_append, List.mem_append] at hr
    rcases hr with hr | hr
    · exact h.notRemembered r hr
    · exact fun hold => h'.notRemembered r hr ((hgrows r).mpr (Or.inl hold))
  depth n hn := by
    rcases List.mem_append.mp hn with hn | hn
    · exact h.depth n hn
    · exact h'.depth n hn

/-- A reference that is new and what is entered below it. -/
theorem enter {reference : String} (source : String) (hchain : reference ∉ chain)
    (hmemo : memo.lookup reference = none)
    (h : EntersOnce (chain ++ [reference]) room memo nested) :
    EntersOnce chain (room + 1) memo
      (⟨reference, source, (chain ++ [reference]).length⟩ :: nested) where
  nodup := by
    refine List.nodup_cons.mpr ⟨fun hin => ?_, h.nodup⟩
    exact h.notInProgress reference hin (List.mem_append_right _ List.mem_cons_self)
  notInProgress r hr := by
    rcases List.mem_cons.mp hr with rfl | hr
    · exact hchain
    · exact fun hin => h.notInProgress r hr (List.mem_append_left _ hin)
  notRemembered r hr := by
    rcases List.mem_cons.mp hr with rfl | hr
    · rintro ⟨value, hvalue⟩
      rw [hmemo] at hvalue
      cases hvalue
    · exact h.notRemembered r hr
  depth n hn := by
    have hlength : (chain ++ [reference]).length = chain.length + 1 := by simp
    rcases List.mem_cons.mp hn with rfl | hn
    · dsimp only
      omega
    · have hdepth := h.depth n hn
      omega

end EntersOnce

/-- A list of nested evaluations for each resolution below a chain is right: it lists the
events, no reference is entered twice, and those that are entered are remembered afterwards. -/
structure Records (chain : List String) (room : Nat)
    (resolve : Memo → String → Traced EvalError (Evaluated × Memo))
    (nested : Memo → String → List NestedEvaluation) : Prop where
  events : ∀ memo r, (resolve memo r).events.filter Event.isNested =
    (nested memo r).map NestedEvaluation.event
  entersOnce : ∀ memo r, EntersOnce chain room memo (nested memo r)
  growsBy : ∀ {memo r value m}, (resolve memo r).result = .ok (value, m) →
    memo.GrowsBy m (referencesOf (nested memo r))

namespace Records

variable {chain : List String} {room : Nat}
  {resolve : Memo → String → Traced EvalError (Evaluated × Memo)}
  {nested : Memo → String → List NestedEvaluation}

/-- The nested evaluations of atoms are those of their references. -/
theorem events_resolveAtoms (h : Records chain room resolve nested) (memo : Memo)
    (atoms : List Atom) :
    (resolveAtoms resolve memo atoms).events.filter Event.isNested =
      (nestedOf resolve nested memo (atoms.filterMap Atom.reference?)).map
        NestedEvaluation.event := by
  induction atoms generalizing memo with
  | nil => rfl
  | cons atom atoms ih =>
      cases atom with
      | operator _ | number _ _ _ | verbatim _ =>
          rw [resolveAtoms, Traced.events_bind_of_silent fun p => rfl]
          exact ih memo
      | reference r =>
          show _ = (nested memo r ++ _).map _
          rw [resolveAtoms, List.map_append, ← h.events]
          cases hfirst : (resolve memo r).result with
          | error error =>
              rw [Traced.events_bind_error hfirst]
              simp
          | ok p =>
              rw [Traced.events_bind_ok hfirst, Traced.events_bind_of_silent fun q => rfl,
                List.filter_append]
              congr 1
              exact ih p.2

theorem entersOnce_nestedOf (h : Records chain room resolve nested) (memo : Memo)
    (references : List String) :
    EntersOnce chain room memo (nestedOf resolve nested memo references) := by
  induction references generalizing memo with
  | nil => exact .nil
  | cons r references ih =>
      rw [nestedOf]
      cases hfirst : (resolve memo r).result with
      | error error =>
          rw [List.append_nil]
          exact h.entersOnce memo r
      | ok p => exact (h.entersOnce memo r).append (h.growsBy hfirst) (ih p.2)

theorem growsBy_resolveAtoms (h : Records chain room resolve nested) {memo m : Memo}
    {atoms : List Atom} {parts : List Part}
    (hatoms : (resolveAtoms resolve memo atoms).result = .ok (parts, m)) :
    memo.GrowsBy m
      (referencesOf (nestedOf resolve nested memo (atoms.filterMap Atom.reference?))) := by
  induction atoms generalizing memo parts with
  | nil =>
      cases hatoms
      exact Memo.growsBy_nil _
  | cons atom atoms ih =>
      cases atom with
      | operator _ | number _ _ _ | verbatim _ =>
          obtain ⟨⟨rest, m₁⟩, hrest, hpure⟩ := Traced.result_bind_eq_ok.mp hatoms
          cases hpure
          exact ih hrest
      | reference r =>
          obtain ⟨⟨value, m₁⟩, hfirst, hnext⟩ := Traced.result_bind_eq_ok.mp hatoms
          obtain ⟨⟨rest, m₂⟩, hrest, hpure⟩ := Traced.result_bind_eq_ok.mp hnext
          cases hpure
          have hnested : nestedOf resolve nested memo
              ((Atom.reference r :: atoms).filterMap Atom.reference?) =
                nested memo r ++
                  nestedOf resolve nested m₁ (atoms.filterMap Atom.reference?) := by
            show nestedOf resolve nested memo (r :: atoms.filterMap Atom.reference?) = _
            rw [nestedOf, hfirst]
          rw [hnested, referencesOf_append]
          exact (h.growsBy hfirst).append (ih hrest)

/-- An evaluation that succeeds remembers what was entered. -/
theorem growsBy_evaluateWith (h : Records chain room resolve nested) {depth : Nat}
    {memo m : Memo} {e : Expression} {value : Evaluated}
    (heval : (evaluateWith resolve depth memo e).result = .ok (value, m)) :
    memo.GrowsBy m (referencesOf (nestedOf resolve nested memo e.references)) := by
  rw [result_evaluateWith] at heval
  obtain ⟨⟨parts, m₁⟩, hatoms, hassemble⟩ := except_bind_eq_ok_iff.mp heval
  obtain ⟨v, -, hpure⟩ := except_bind_eq_ok_iff.mp hassemble
  cases hpure
  exact h.growsBy_resolveAtoms hatoms

end Records

theorem filter_warnings (e : Expression) : e.warnings.filter Event.isNested = [] := by
  unfold Expression.warnings
  split <;> rfl

/-- Resolving a reference records what it enters, by induction on the references that may
still be entered. -/
theorem records_resolve (table : LookupTable) (room : Nat) (chain : List String) :
    Records chain room (resolve table room chain) (nestedBelow table room chain) := by
  induction room generalizing chain with
  | zero => exact ⟨fun _ _ => rfl, fun _ _ => .nil, fun h => by cases h⟩
  | succ room ih =>
      constructor
      · intro memo r
        rw [nestedBelow]
        cases hentered : entered? table chain memo r with
        | none => rw [(resolve_of_entered?_eq_none hentered room).1]; rfl
        | some e =>
            rw [events_resolve_of_entered? hentered, List.filter_append, filter_warnings,
              List.nil_append, List.filter_cons_of_pos (by simp [Event.isNested]),
              (ih _).events_resolveAtoms]
            rfl
      · intro memo r
        rw [nestedBelow]
        cases hentered : entered? table chain memo r with
        | none => exact .nil
        | some e =>
            obtain ⟨hchain, hmemo, -⟩ := entered?_eq_some_iff.mp hentered
            exact .enter e.source hchain hmemo ((ih _).entersOnce_nestedOf memo e.references)
      · intro memo r value m h
        rw [nestedBelow]
        cases hentered : entered? table chain memo r with
        | none =>
            rw [(resolve_of_entered?_eq_none hentered room).2 value m h]
            exact Memo.growsBy_nil _
        | some e =>
            obtain ⟨hchain, hmemo, raw, hget, hparse⟩ := entered?_eq_some_iff.mp hentered
            rw [result_resolve_parsed (by simpa using hchain) hmemo hget hparse] at h
            obtain ⟨⟨v, m₁⟩, heval, hpure⟩ := except_bind_eq_ok_iff.mp h
            cases hpure
            have hgrows := (ih _).growsBy_evaluateWith heval
            intro x
            rw [Memo.holds_cons, hgrows x]
            show _ ↔ _ ∨ x ∈ r :: referencesOf _
            rw [List.mem_cons, or_left_comm]

/-! ## What is entered -/

theorem exists_of_mem_nestedOf {resolve : Memo → String → Traced EvalError (Evaluated × Memo)}
    {nested : Memo → String → List NestedEvaluation} {memo : Memo} {references : List String}
    {n : NestedEvaluation} (h : n ∈ nestedOf resolve nested memo references) :
    ∃ memo', ∃ r ∈ references, n ∈ nested memo' r := by
  induction references generalizing memo with
  | nil => cases h
  | cons r references ih =>
      rw [nestedOf] at h
      rcases List.mem_append.mp h with h | h
      · exact ⟨memo, r, List.mem_cons_self, h⟩
      · split at h
        · obtain ⟨memo', r', hr', h⟩ := ih h
          exact ⟨memo', r', List.mem_cons_of_mem _ hr', h⟩
        · cases h

section

variable {table : LookupTable} {e : Expression}

/-- A nested evaluation is that of the stored value of its reference. -/
def LookupTable.IsStored (table : LookupTable) (n : NestedEvaluation) : Prop :=
  ∃ raw e', table.get? n.reference = some raw ∧ Expression.parse raw = .ok e' ∧
    n.source = e'.source

/-- Below a reference of a closed set only references of the set are entered. -/
theorem nestedBelow_within {S : String → Prop} (hclosed : table.IsClosed S) {room : Nat}
    {chain : List String} {memo : Memo} {reference : String} (hmem : S reference)
    {n : NestedEvaluation} (hn : n ∈ nestedBelow table room chain memo reference) :
    table.IsStored n ∧ S n.reference := by
  induction room generalizing chain memo reference with
  | zero => cases hn
  | succ room ih =>
      rw [nestedBelow] at hn
      cases hentered : entered? table chain memo reference with
      | none =>
          rw [hentered] at hn
          cases hn
      | some e =>
          rw [hentered] at hn
          obtain ⟨-, -, raw, hget, hparse⟩ := entered?_eq_some_iff.mp hentered
          rcases List.mem_cons.mp hn with rfl | hn
          · exact ⟨⟨raw, e, hget, hparse, rfl⟩, hmem⟩
          · obtain ⟨memo', r, hr, hn⟩ := exists_of_mem_nestedOf hn
            exact ih (hclosed hmem ⟨raw, e, hget, hparse, hr⟩) hn

theorem nestedEvaluations_within {n : NestedEvaluation} (hn : n ∈ nestedEvaluations table e) :
    table.IsStored n ∧ table.Reaches e n.reference := by
  obtain ⟨memo, r, hr, hn⟩ := exists_of_mem_nestedOf hn
  exact nestedBelow_within (table.isClosed_reaches e) (LookupTable.reaches_of_mem hr) hn

theorem events_evaluate (table : LookupTable) (e : Expression) :
    (evaluate table e).events =
      .evaluating e.source 0 ::
        (resolveAtoms (resolve table maxReferenceDepth []) [] e.atoms).events := by
  rw [evaluate, Traced.events_bind_of_silent fun p => rfl, events_evaluateWith]

/-- An evaluation with a value entered everything the expression leads to. -/
theorem mem_referencesOf_of_evaluate {value : Evaluated}
    (h : (evaluate table e).result = .ok value) {r : String} (hr : table.Reaches e r) :
    r ∈ referencesOf (nestedEvaluations table e) := by
  rw [evaluate] at h
  obtain ⟨⟨v, m⟩, heval, -⟩ := Traced.result_bind_eq_ok.mp h
  have hgrows := (records_resolve table maxReferenceDepth []).growsBy_evaluateWith heval
  -- the memo at the end is closed and holds the references of the expression
  have hagrees := evaluateWith_agrees
    (resolveAfresh_eq_or_cycle table (some maxReferenceDepth) [])
    (resolve_agrees table maxReferenceDepth maxReferenceDepth [] (Nat.zero_add _))
    (Memo.Sound.empty table []) 0 e
  rw [heval] at hagrees
  obtain ⟨hclosed, hrefs⟩ : table.IsClosed (Memo.Holds m) ∧ ∀ r ∈ e.references, m.Holds r := by
    generalize valueWith (resolveAfresh table none []) e = afresh at hagrees
    cases hagrees with
    | ok hsound hextends hrefs => exact ⟨hsound.closed, hrefs⟩
  rcases (hgrows r).mp (hclosed.of_reaches hrefs hr) with ⟨value, hempty⟩ | hin
  · cases hempty
  · exact hin

/-- **Each reference is evaluated at most once.** The events of an evaluation that begin below
a reference are those of `nestedEvaluations`, in order. These belong to different references,
each to one that the expression leads to and to its stored value, at a depth between 1 and
the limit. An evaluation with a value has exactly one for each reference the expression leads
to. -/
theorem evaluate_enters_once (table : LookupTable) (e : Expression) :
    (evaluate table e).events.filter Event.isNested =
        (nestedEvaluations table e).map NestedEvaluation.event ∧
      ((nestedEvaluations table e).map (·.reference)).Nodup ∧
      (∀ n ∈ nestedEvaluations table e, table.IsStored n ∧ table.Reaches e n.reference ∧
        1 ≤ n.depth ∧ n.depth ≤ maxReferenceDepth) ∧
      ∀ value, (evaluate table e).result = .ok value → ∀ r, table.Reaches e r ↔
        r ∈ (nestedEvaluations table e).map (·.reference) := by
  have hrecords := records_resolve table maxReferenceDepth []
  have honce : EntersOnce [] maxReferenceDepth [] (nestedEvaluations table e) :=
    hrecords.entersOnce_nestedOf [] e.references
  refine ⟨?_, honce.nodup, fun n hn => ?_, fun value h r => ⟨mem_referencesOf_of_evaluate h, ?_⟩⟩
  · rw [events_evaluate, List.filter_cons_of_neg (by simp [Event.isNested])]
    exact hrecords.events_resolveAtoms [] e.atoms
  · obtain ⟨hstored, hreached⟩ := nestedEvaluations_within hn
    have hdepth := honce.depth n hn
    rw [List.length_nil, Nat.zero_add] at hdepth
    exact ⟨hstored, hreached, hdepth.1, hdepth.2⟩
  · intro hr
    obtain ⟨n, hn, rfl⟩ := List.mem_map.mp hr
    exact (nestedEvaluations_within hn).2

end

/-- The reference `{d}` is met three times and evaluated once. -/
theorem evaluate_enters_once_shared :
    nestedEvaluations sharedTable sharedExpression =
        [⟨"{a}", "{b}+{c}", 1⟩, ⟨"{b}", "{d}*2", 2⟩, ⟨"{d}", "3px", 3⟩, ⟨"{c}", "{d}+1", 2⟩] ∧
      (evaluate sharedTable sharedExpression).result =
        .ok (.number ⟨7, 0, by decide, by decide⟩ (some "px")) ∧
      (evaluate sharedTable sharedExpression).events.filter Event.isNested =
        [.evaluating "{b}+{c}" 1, .evaluating "{d}*2" 2, .evaluating "3px" 3,
          .evaluating "{d}+1" 2] ∧
      ∀ r, sharedTable.Reaches sharedExpression r ↔ r ∈ ["{a}", "{b}", "{d}", "{c}"] := by
  have hnested : nestedEvaluations sharedTable sharedExpression =
      [⟨"{a}", "{b}+{c}", 1⟩, ⟨"{b}", "{d}*2", 2⟩, ⟨"{d}", "3px", 3⟩, ⟨"{c}", "{d}+1", 2⟩] := by
    decide +kernel
  have hvalue : (evaluate sharedTable sharedExpression).result =
      .ok (.number ⟨7, 0, by decide, by decide⟩ (some "px")) := by
    decide +kernel
  obtain ⟨hevents, -, -, hall⟩ := evaluate_enters_once sharedTable sharedExpression
  rw [hnested] at hevents hall
  exact ⟨hnested, hvalue, hevents, hall _ hvalue⟩

end DesignTokens
