import DesignTokens.Proofs.Expression.Scanning
import DesignTokens.Proofs.Lookup.Least
import DesignTokens.Proofs.Tree.Values

set_option autoImplicit false

/-! # The references of a tree

`TokenTree.references` lists the references in the values of a tree, in document order. A
lookup table for the expressions of the tree needs these and no others
(`TokenTree.needs_iff`): whatever answers a reference is a value of the tree itself, so
following references meets nothing that the walk over the tree has not met.

Reading a value has one result at most (`Expression.ofText`, `PlacedValue.expression`), so a
tree that can be flattened has the expressions of its values, one by one
(`TokenTree.flatten_eq_ok_iff`).
-/

namespace DesignTokens

/-! ## Expressions -/

namespace Expression

/-- What a text is read as, if it has no opening parenthesis. -/
def ofText (text : String) : Expression :=
  ⟨stripBlanks text, atomsOf (stripBlanks text).toList,
    isFormula (atomsOf (stripBlanks text).toList)⟩

theorem parse_eq_ok_iff {text : String} {e : Expression} :
    parse text = .ok e ↔ '(' ∉ text.toList ∧ e = ofText text := by
  constructor
  · intro hparse
    have hparen : '(' ∉ text.toList := by
      intro hparen
      rw [parse_eq_error_iff.mpr ⟨hparen, rfl⟩] at hparse
      cases hparse
    rw [parse_of_notMem hparen, Except.ok.injEq] at hparse
    exact ⟨hparen, hparse.symm⟩
  · rintro ⟨hparen, rfl⟩
    exact parse_of_notMem hparen

end Expression

theorem referencesIn_eq {text : String} (h : '(' ∉ text.toList) :
    referencesIn text = (Expression.ofText text).references := by
  rw [referencesIn, Expression.parse_eq_ok_iff.mpr ⟨h, rfl⟩]

namespace PlacedValue

/-- What a value is read as, if it has no opening parenthesis. -/
def expression (value : PlacedValue) : TokenExpression :=
  ⟨.ofText value.text, value.path, value.tokenType, value.member⟩

variable {value : PlacedValue}

theorem result_read_eq_ok_iff {e : TokenExpression} :
    value.read.result = .ok e ↔ '(' ∉ value.text.toList ∧ value.expression = e := by
  rw [read, Traced.result_bind_eq_ok, Expression.result_read]
  constructor
  · rintro ⟨expression, hparse, hpure⟩
    obtain ⟨hparen, rfl⟩ := Expression.parse_eq_ok_iff.mp hparse
    cases hpure
    exact ⟨hparen, rfl⟩
  · rintro ⟨hparen, rfl⟩
    exact ⟨_, Expression.parse_eq_ok_iff.mpr ⟨hparen, rfl⟩, rfl⟩

theorem result_read_eq_error (h : '(' ∈ value.text.toList) :
    value.read.result = .error (.parenthesis value.text) := by
  rw [read, Traced.result_bind, Expression.result_read,
    Expression.parse_eq_error_iff.mpr ⟨h, rfl⟩]
  rfl

end PlacedValue

namespace TokenTree

variable {tree : TokenTree} {parent : String} {expressions : List TokenExpression}

/-- A tree without opening parentheses is flattened to the expressions of its values. -/
theorem flatten_eq_ok_iff :
    (tree.flatten parent).result = .ok expressions ↔
      (∀ value ∈ tree.values parent, '(' ∉ value.text.toList) ∧
        (tree.values parent).map PlacedValue.expression = expressions := by
  rw [result_flatten_eq_ok_iff]
  simp only [PlacedValue.result_read_eq_ok_iff]
  rw [List.forall₂_and_left, ← List.forall₂_map_left_iff (R := Eq), List.forall₂_eq_eq_eq]

/-- The first value with an opening parenthesis is the one that is reported. -/
theorem flatten_eq_error {before after : List PlacedValue} {value : PlacedValue}
    (hvalues : tree.values parent = before ++ value :: after)
    (hbefore : ∀ v ∈ before, '(' ∉ v.text.toList) (hparen : '(' ∈ value.text.toList) :
    (tree.flatten parent).result = .error (.parenthesis value.text) := by
  refine Traced.result_mapM_eq_error_iff.mpr ⟨before, value, after, hvalues, fun v hv => ?_,
    PlacedValue.result_read_eq_error hparen⟩
  exact ⟨_, PlacedValue.result_read_eq_ok_iff.mpr ⟨hbefore v hv, rfl⟩⟩

/-! ## References -/

/-- The references in the values of a tree, in document order. -/
def references (tree : TokenTree) : List String :=
  (tree.values "").flatMap fun value => referencesIn value.text

theorem mem_references_iff {r : String} :
    r ∈ tree.references ↔ ∃ value ∈ tree.values "", r ∈ referencesIn value.text :=
  List.mem_flatMap

/-- The references of a tree with the raw values that it has for them. -/
def answers (tree : TokenTree) : LookupTable :=
  ⟨tree.references.filterMap fun r => (tree.rawValue? (stripBraces r)).map fun raw => (r, raw)⟩

theorem get?_answers {r : String} :
    tree.answers.get? r =
      if r ∈ tree.references then tree.rawValue? (stripBraces r) else none :=
  lookup_filterMap_pair (fun r => tree.rawValue? (stripBraces r)) tree.references

/-- What answers a reference is a value of the tree, so its references are the tree's. -/
theorem mem_references_of_answer {path raw r : String} {e : Expression}
    (hanswer : tree.source.Answers path raw) (hparse : Expression.parse raw = .ok e)
    (hr : r ∈ e.references) : r ∈ tree.references := by
  obtain ⟨value, hvalue, rfl⟩ := exists_mem_values_of_rawValue? hanswer
  refine mem_references_iff.mpr ⟨value, hvalue, ?_⟩
  rw [referencesIn, hparse]
  exact hr

/-- The references of a flattened tree are those of its values. -/
theorem references_of_flatten (h : (tree.flatten "").result = .ok expressions) :
    (expressions.map TokenExpression.toExpression).flatMap Expression.references =
      tree.references := by
  obtain ⟨hparen, rfl⟩ := flatten_eq_ok_iff.mp h
  rw [references, List.map_map, List.flatMap_map]
  refine List.flatMap_congr fun value hvalue => ?_
  exact (referencesIn_eq (hparen value hvalue)).symm

/-- The lookup table of a tree needs the references of the tree. -/
theorem needs_iff (h : (tree.flatten "").result = .ok expressions) {r : String} :
    tree.source.Needs (expressions.map TokenExpression.toExpression) r ↔ r ∈ tree.references := by
  constructor
  · intro hneeds
    cases hneeds with
    | own he hr =>
        rw [← references_of_flatten h]
        exact List.mem_flatMap.mpr ⟨_, he, hr⟩
    | nested _ hanswer hparse hr => exact mem_references_of_answer hanswer hparse hr
  · intro hr
    rw [← references_of_flatten h] at hr
    obtain ⟨e, he, hr⟩ := List.mem_flatMap.mp hr
    exact .own he hr

/-- What answers a reference of a tree that can be flattened can be read. -/
theorem isAnswered_iff (h : (tree.flatten "").result = .ok expressions) {r : String} :
    tree.source.IsAnswered r ↔ ∃ raw, tree.rawValue? (stripBraces r) = some raw := by
  obtain ⟨hparen, -⟩ := flatten_eq_ok_iff.mp h
  rw [Source.isAnswered_iff]
  constructor
  · rintro ⟨raw, hraw, -⟩
    exact ⟨raw, hraw⟩
  · rintro ⟨raw, hraw⟩
    obtain ⟨value, hvalue, rfl⟩ := exists_mem_values_of_rawValue? hraw
    exact ⟨_, hraw, hparen value hvalue⟩

end TokenTree

end DesignTokens
