import DesignTokens.Proofs.Evaluation.Agreement
import DesignTokens.Proofs.Tokens.Loading
import DesignTokens.Proofs.Tree.References

set_option autoImplicit false

/-! # Faults of a tree

`TokenTree.fault?` is what keeps a tree from loading, said without loading it: the first
value with an opening parenthesis, or else the first reference that no value answers, both
in document order. `load_reports_fault` says that loading fails with this fault and with no
other, and that the lookup table of a tree without one has exactly the references of its
values.

The lookup table is filled from a queue that goes on with references it finds in answers.
It takes the references of the tree first, and they are all there are
(`TokenTree.needs_iff`), so the first one without an answer is the one it fails at.
-/

namespace DesignTokens

namespace TokenTree

/-- The fault that a tree is refused for. -/
def fault? (tree : TokenTree) : Option TokenError :=
  match (tree.values "").find? fun value => value.text.toList.contains '(' with
  | some value => some (.unreadable (.parenthesis value.text))
  | none =>
    (tree.references.find? fun r => (tree.rawValue? (stripBraces r)).isNone).map fun r =>
      .evaluation (.referenceNotFound r)

variable {tree : TokenTree}

/-- A tree has no fault if all its values can be read and all its references resolve. -/
theorem fault?_eq_none_iff :
    tree.fault? = none ↔ ∀ value ∈ tree.values "", '(' ∉ value.text.toList ∧
      ∀ r ∈ referencesIn value.text, ∃ raw, tree.rawValue? (stripBraces r) = some raw := by
  have hresolves : ∀ r, (tree.rawValue? (stripBraces r)).isNone = false ↔
      ∃ raw, tree.rawValue? (stripBraces r) = some raw := by
    intro r
    rw [← Option.isSome_iff_exists, Option.isNone_eq_false_iff]
  unfold fault?
  split
  · rename_i value hfind
    refine iff_of_false (by rintro ⟨⟩) fun h => ?_
    have hparen : '(' ∈ value.text.toList := by simpa using List.find?_some hfind
    exact (h value (List.mem_of_find?_eq_some hfind)).1 hparen
  · rename_i hfind
    rw [Option.map_eq_none_iff, List.find?_eq_none]
    rw [List.find?_eq_none] at hfind
    constructor
    · intro h value hvalue
      refine ⟨by simpa using hfind value hvalue, fun r hr => (hresolves r).mp ?_⟩
      exact Bool.eq_false_iff.mpr (h r (mem_references_iff.mpr ⟨value, hvalue, hr⟩))
    · intro h r hr
      obtain ⟨value, hvalue, hr⟩ := mem_references_iff.mp hr
      exact Bool.eq_false_iff.mp ((hresolves r).mpr ((h value hvalue).2 r hr))

end TokenTree

namespace TokenSet

variable {tree : TokenTree} {formatters : FormatterRegistry} {tokens : TokenSet}

/-- A tree without a fault loads. -/
theorem exists_load_of_fault? (h : tree.fault? = none) :
    ∃ tokens, (load tree formatters).result = .ok tokens := by
  rw [TokenTree.fault?_eq_none_iff] at h
  have hflatten : (tree.flatten "").result = .ok _ :=
    TokenTree.flatten_eq_ok_iff.mpr ⟨fun value hvalue => (h value hvalue).1, rfl⟩
  obtain ⟨table, htable⟩ := LookupTable.exists_build_iff.mpr fun r hr => by
    obtain ⟨value, hvalue, hr⟩ :=
      TokenTree.mem_references_iff.mp ((TokenTree.needs_iff hflatten).mp hr)
    exact (TokenTree.isAnswered_iff hflatten).mpr ((h value hvalue).2 r hr)
  exact ⟨_, result_load_eq_ok_iff.mpr ⟨_, table, hflatten, htable, rfl⟩⟩

/-- A tree without references loads with an empty table. -/
theorem result_load_of_references_eq_nil (hfault : tree.fault? = none)
    (hnone : tree.references = []) (formatters : FormatterRegistry) :
    (load tree formatters).result =
      .ok ⟨tree, (tree.values "").map PlacedValue.expression, .empty, formatters⟩ := by
  rw [TokenTree.fault?_eq_none_iff] at hfault
  have hflatten : (tree.flatten "").result = .ok _ :=
    TokenTree.flatten_eq_ok_iff.mpr ⟨fun value hvalue => (hfault value hvalue).1, rfl⟩
  refine result_load_eq_ok_iff.mpr ⟨_, .empty, hflatten, ?_, rfl⟩
  have hstart := (TokenTree.references_of_flatten hflatten).trans hnone
  rw [LookupTable.build]
  simp only [hstart]
  rw [LookupTable.buildFrom]
  rfl

/-- A tree with a fault is refused for it. -/
theorem result_load_eq_error_of_fault? {error : TokenError} (h : tree.fault? = some error) :
    (load tree formatters).result = .error error := by
  unfold TokenTree.fault? at h
  rw [load]
  split at h
  · rename_i value hfind
    cases h
    obtain ⟨hparen, before, after, hvalues, hbefore⟩ := List.find?_eq_some_iff_append.mp hfind
    have hflatten := TokenTree.flatten_eq_error hvalues (fun v hv => by simpa using hbefore v hv)
      (by simpa using hparen)
    refine Traced.result_bind_eq_error.mpr (Or.inl ?_)
    rw [Traced.result_mapError, hflatten]
    rfl
  · rename_i hfind
    obtain ⟨r, hr, rfl⟩ := Option.map_eq_some_iff.mp h
    obtain ⟨hmissing, before, after, hreferences, hbefore⟩ :=
      List.find?_eq_some_iff_append.mp hr
    have hparen : ∀ value ∈ tree.values "", '(' ∉ value.text.toList := by
      intro value hvalue
      simpa using List.find?_eq_none.mp hfind value hvalue
    have hflatten : (tree.flatten "").result = .ok _ :=
      TokenTree.flatten_eq_ok_iff.mpr ⟨hparen, rfl⟩
    have hanswered : ∀ r' ∈ before, tree.source.IsAnswered r' := by
      intro r' hr'
      rw [TokenTree.isAnswered_iff hflatten, ← Option.isSome_iff_exists]
      simpa using hbefore r' hr'
    have hbuild := LookupTable.result_build_missing
      ((TokenTree.references_of_flatten hflatten).trans hreferences) hanswered
      (Option.isNone_iff_eq_none.mp hmissing)
    refine Traced.result_bind_eq_error.mpr
      (Or.inr ⟨_, Traced.result_mapError_eq_ok.mpr hflatten, ?_⟩)
    refine Traced.result_bind_eq_error.mpr (Or.inl ?_)
    rw [Traced.result_mapError, hbuild]
    rfl

/-- A tree loads exactly when it has no fault. -/
theorem exists_load_iff :
    (∃ tokens, (load tree formatters).result = .ok tokens) ↔ tree.fault? = none := by
  constructor
  · rintro ⟨tokens, hload⟩
    refine Option.eq_none_iff_forall_ne_some.mpr fun error hfault => ?_
    rw [result_load_eq_error_of_fault? hfault] at hload
    cases hload
  · exact exists_load_of_fault?

/-- A tree that is refused is refused for its fault. -/
theorem result_load_eq_error_iff {error : TokenError} :
    (load tree formatters).result = .error error ↔ tree.fault? = some error := by
  refine ⟨fun h => ?_, result_load_eq_error_of_fault?⟩
  cases hfault : tree.fault? with
  | none =>
      obtain ⟨tokens, hload⟩ := exists_load_of_fault? hfault
      rw [h] at hload
      cases hload
  | some fault =>
      rw [result_load_eq_error_of_fault? hfault, Except.error.injEq] at h
      rw [h]

/-! ## Loaded trees -/

/-- The expressions of a loaded tree are those of its values. -/
theorem expressions_of_load (h : (load tree formatters).result = .ok tokens) :
    tokens.expressions = (tree.values "").map PlacedValue.expression := by
  obtain ⟨expressions, table, hflatten, -, rfl⟩ := result_load_eq_ok_iff.mp h
  exact (TokenTree.flatten_eq_ok_iff.mp hflatten).2.symm

theorem parse_of_load (h : (load tree formatters).result = .ok tokens) {value : PlacedValue}
    (hvalue : value ∈ tree.values "") :
    Expression.parse value.text = .ok value.expression.toExpression := by
  have hfault := exists_load_iff.mp ⟨tokens, h⟩
  have hparen := (TokenTree.fault?_eq_none_iff.mp hfault value hvalue).1
  exact Expression.parse_eq_ok_iff.mpr ⟨hparen, rfl⟩

/-- In a loaded token set everything that an expression leads to is stored. -/
theorem isReadable_of_load (h : (load tree formatters).result = .ok tokens)
    {e : TokenExpression} (he : e ∈ tokens.expressions) {r : String}
    (hr : tokens.table.Reaches e.toExpression r) : tokens.table.IsReadable r := by
  obtain ⟨expressions, table, -, htable, rfl⟩ := result_load_eq_ok_iff.mp h
  exact (LookupTable.build_eq_ok_iff.mp htable).isReadable (List.mem_map_of_mem he) hr

/-- The table of a loaded tree answers the references of the tree, as the tree does. -/
theorem get?_eq_some_iff_of_load (h : (load tree formatters).result = .ok tokens)
    {r raw : String} :
    tokens.table.get? r = some raw ↔
      r ∈ tree.references ∧ tree.rawValue? (stripBraces r) = some raw := by
  obtain ⟨expressions, table, hflatten, htable, rfl⟩ := result_load_eq_ok_iff.mp h
  rw [LookupTable.get?_eq_some_iff htable, TokenTree.needs_iff hflatten]
  rfl

/-- In a loaded token set, expressions evaluate as against the answers of the tree. -/
theorem evaluate_of_load (h : (load tree formatters).result = .ok tokens) (e : Expression) :
    evaluate tokens.table e = evaluate tree.answers e := by
  refine evaluate_of_reaches fun r _ => Option.ext fun raw => ?_
  rw [get?_eq_some_iff_of_load h, TokenTree.get?_answers]
  by_cases hr : r ∈ tree.references <;> simp [hr]

theorem mem_stored_iff_of_load (h : (load tree formatters).result = .ok tokens) {r : String} :
    r ∈ tokens.table.stored ↔ r ∈ tree.references := by
  obtain ⟨expressions, table, hflatten, htable, rfl⟩ := result_load_eq_ok_iff.mp h
  rw [← LookupTable.contains_iff_mem_stored, LookupTable.contains_iff_needs htable,
    TokenTree.needs_iff hflatten]

end TokenSet

/-- **Loading fails exactly when it must, and reports the first fault.** A tree loads exactly
when none of its values has an opening parenthesis and all their references resolve.
Otherwise loading fails with the fault of the tree: the first value with an opening
parenthesis, or else the first reference that does not resolve. No fault is found while
following references, and the table of a loaded tree stores the references that occur in
the values of the tree. -/
theorem load_reports_fault (tree : TokenTree) (formatters : FormatterRegistry) :
    ((∃ tokens, (TokenSet.load tree formatters).result = .ok tokens) ↔
      ∀ value ∈ tree.values "", '(' ∉ value.text.toList ∧
        ∀ r ∈ referencesIn value.text, ∃ raw, tree.rawValue? (stripBraces r) = some raw) ∧
    (∀ error, (TokenSet.load tree formatters).result = .error error ↔
      tree.fault? = some error) ∧
    (∀ cause, (TokenSet.load tree formatters).result ≠ .error (.evaluation (.unreadable cause))) ∧
    ∀ tokens, (TokenSet.load tree formatters).result = .ok tokens →
      ∀ r, r ∈ tokens.table.stored ↔ ∃ value ∈ tree.values "", r ∈ referencesIn value.text := by
  refine ⟨TokenSet.exists_load_iff.trans TokenTree.fault?_eq_none_iff,
    fun _ => TokenSet.result_load_eq_error_iff, ?_, ?_⟩
  · intro cause h
    have hfault := TokenSet.result_load_eq_error_iff.mp h
    unfold TokenTree.fault? at hfault
    split at hfault
    · cases hfault
    · obtain ⟨r, -, hr⟩ := Option.map_eq_some_iff.mp hfault
      cases hr
  · intro tokens hload r
    rw [TokenSet.mem_stored_iff_of_load hload, TokenTree.mem_references_iff]

/-- Three sizes, of which two lead to references that nothing answers. -/
def brokenTree : TokenTree :=
  .token "md" ⟨.scalar "{sm} * 2", "dimension"⟩
    (.token "sm" ⟨.scalar "{unit}", "dimension"⟩
      (.token "lg" ⟨.scalar "{md} * {max}", "dimension"⟩ .nil))

/-- The same sizes with what they lead to. -/
def mendedTree : TokenTree :=
  (brokenTree.push "unit" (.token ⟨.scalar "4px", "dimension"⟩)).push "max"
    (.token ⟨.scalar "{lg} / {lg}", "number"⟩)

theorem load_reports_fault_sizes :
    (TokenSet.load brokenTree .standard).result =
        .error (.evaluation (.referenceNotFound "{unit}")) ∧
      ∃ tokens, (TokenSet.load mendedTree .standard).result = .ok tokens ∧
        ∀ r, r ∈ tokens.table.stored ↔
          ∃ value ∈ mendedTree.values "", r ∈ referencesIn value.text := by
  have hbroken : brokenTree.fault? = some (.evaluation (.referenceNotFound "{unit}")) := by
    decide +kernel
  have hmended : mendedTree.fault? = none := by decide +kernel
  obtain ⟨-, hfails, -, -⟩ := load_reports_fault brokenTree .standard
  obtain ⟨-, -, -, hstored⟩ := load_reports_fault mendedTree .standard
  obtain ⟨tokens, hload⟩ := TokenSet.exists_load_of_fault? hmended
  exact ⟨(hfails _).mpr hbroken, tokens, hload, hstored tokens hload⟩

end DesignTokens
