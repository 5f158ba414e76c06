import DesignTokens.Proofs.Evaluation.Agreement
import DesignTokens.Proofs.Lookup.Least
import DesignTokens.Proofs.Tokens.Faults
import DesignTokens.Proofs.Tree.Reordering

set_option autoImplicit false

/-! # The order of keys does not matter

Trees of documents that differ only in the order of their entries load alike, and then every
value evaluates alike and every key has the same text (`load_reordered`). Each stage sees
the unordered content only: flattening gives the same expressions in another order, the
lookup table holds the same values because it is the least one, evaluation depends on the
values of the table, and the standard formatter refuses more than one match.
-/

namespace DesignTokens

namespace TokenSet

/-- Path, type and result of every expression. -/
def outcomes (tokens : TokenSet) : List (String × String × Except EvalError Evaluated) :=
  tokens.expressions.map fun e => (e.path, e.tokenType, (evaluate tokens.table e.toExpression).result)

/-- Two token sets with the same expressions in any order, and tables of the same values. -/
structure Agrees (tokens tokens' : TokenSet) : Prop where
  expressions : tokens.expressions.Perm tokens'.expressions
  get? : ∀ r, tokens.table.get? r = tokens'.table.get? r

variable {tree tree' : TokenTree} {formatters : FormatterRegistry} {tokens tokens' : TokenSet}

/-- A reordered tree loads to the same expressions and the same values of references. -/
theorem exists_load_of_reordered (h : tree.Reordered tree') (hproper : tree.IsProper)
    (hload : (load tree formatters).result = .ok tokens) :
    ∃ tokens', (load tree' formatters).result = .ok tokens' ∧ tokens.Agrees tokens' := by
  obtain ⟨expressions, table, hflatten, htable, rfl⟩ := result_load_eq_ok_iff.mp hload
  obtain ⟨expressions', hflatten', hperm⟩ :=
    TokenTree.exists_flatten_of_perm (h.values_perm "") hflatten
  have hmem : ∀ e, e ∈ expressions.map TokenExpression.toExpression ↔
      e ∈ expressions'.map TokenExpression.toExpression := fun e =>
    (hperm.map TokenExpression.toExpression).mem_iff
  have hraw : tree.source.raw? = tree'.source.raw? := h.rawValue?_eq hproper
  obtain ⟨table', htable', hget⟩ := LookupTable.exists_build_of_raw?_eq hraw hmem htable
  exact ⟨_, result_load_eq_ok_iff.mpr ⟨expressions', table', hflatten', htable', rfl⟩, hperm, hget⟩

namespace Agrees

theorem symm (h : tokens.Agrees tokens') : tokens'.Agrees tokens :=
  ⟨h.expressions.symm, fun r => (h.get? r).symm⟩

theorem evaluate_eq (h : tokens.Agrees tokens') (e : Expression) :
    evaluate tokens.table e = evaluate tokens'.table e :=
  evaluate_of_reaches fun r _ => h.get? r

theorem outcomes_perm (h : tokens.Agrees tokens') : tokens.outcomes.Perm tokens'.outcomes := by
  unfold outcomes
  simp only [h.evaluate_eq]
  exact h.expressions.map _

/-- A key that finds one expression finds it in any order. -/
theorem matching_eq_singleton (h : tokens.Agrees tokens') {key : String} {e : TokenExpression}
    (hfound : tokens.matching key = [e]) : tokens'.matching key = [e] := by
  have hperm : (tokens.matching key).Perm (tokens'.matching key) := h.expressions.filter _
  rw [hfound] at hperm
  exact List.perm_singleton.mp hperm.symm

theorem valueFor_eq_ok (h : tokens.Agrees tokens') (hstandard : tokens.formatters = .standard)
    (hstandard' : tokens'.formatters = .standard) {key text : String}
    (htext : (tokens.valueFor key).result = .ok text) :
    (tokens'.valueFor key).result = .ok text := by
  obtain ⟨e, value, hfound, hvalue, hlength⟩ := (result_valueFor_eq_ok_iff hstandard).mp htext
  rw [h.evaluate_eq] at hvalue
  exact (result_valueFor_eq_ok_iff hstandard').mpr
    ⟨e, value, h.matching_eq_singleton hfound, hvalue, hlength⟩

end Agrees

end TokenSet

/-- **The order of keys does not matter.** Take the tree of a document and another tree that
differs only in the order of the entries inside groups and of the members inside composite
values. One of them loads exactly when the other does. Then the paths, types and results of
their expressions are the same up to order, errors included, and a key has a text in one
exactly when it has that text in the other. -/
theorem load_reordered {document : Json} {tree tree' : TokenTree} (hdocument : document.IsProper)
    (htree : (TokenTree.ofJson document).result = .ok tree) (h : tree.Reordered tree') :
    ((∃ tokens, (TokenSet.load tree .standard).result = .ok tokens) ↔
      ∃ tokens, (TokenSet.load tree' .standard).result = .ok tokens) ∧
    ∀ tokens tokens', (TokenSet.load tree .standard).result = .ok tokens →
      (TokenSet.load tree' .standard).result = .ok tokens' →
      tokens.outcomes.Perm tokens'.outcomes ∧
      ∀ key text, (tokens.valueFor key).result = .ok text ↔
        (tokens'.valueFor key).result = .ok text := by
  have hproper := TokenTree.isProper_of_ofJson hdocument htree
  have hproper' := h.isProper hproper
  constructor
  · constructor
    · rintro ⟨tokens, hload⟩
      obtain ⟨tokens', hload', -⟩ := TokenSet.exists_load_of_reordered h hproper hload
      exact ⟨tokens', hload'⟩
    · rintro ⟨tokens', hload'⟩
      obtain ⟨tokens, hload, -⟩ := TokenSet.exists_load_of_reordered h.symm hproper' hload'
      exact ⟨tokens, hload⟩
  · intro tokens tokens' hload hload'
    have hagrees : tokens.Agrees tokens' := by
      obtain ⟨loaded, hloaded, hagrees⟩ := TokenSet.exists_load_of_reordered h hproper hload
      rw [hload', Except.ok.injEq] at hloaded
      rwa [hloaded]
    have hstandard := TokenSet.formatters_of_load hload
    have hstandard' := TokenSet.formatters_of_load hload'
    refine ⟨hagrees.outcomes_perm, fun key text => ?_⟩
    constructor
    · exact hagrees.valueFor_eq_ok hstandard hstandard'
    · exact hagrees.symm.valueFor_eq_ok hstandard' hstandard

/-- Two sizes, one written with the other, and a text style. -/
def stylesDocument : Json :=
  .object [
    ("space", .object [
      ("sm", .object [("type", .text "dimension"), ("value", .text "4px")]),
      ("md", .object [("type", .text "dimension"), ("value", .text "{space.sm} * 2")])]),
    ("heading", .object [("type", .text "typography"),
      ("value", .object [("size", .text "{space.md}"), ("weight", .text "bold")])])]

/-- `4px` -/
def smallSize : Token := ⟨.scalar "4px", "dimension"⟩

/-- `{space.sm} * 2` -/
def mediumSize : Token := ⟨.scalar "{space.sm} * 2", "dimension"⟩

/-- The tree of `stylesDocument`. -/
def stylesTree : TokenTree :=
  .group "space" (.token "sm" smallSize (.token "md" mediumSize .nil))
    (.token "heading" ⟨.composite [("size", "{space.md}"), ("weight", "bold")], "typography"⟩ .nil)

/-- The same with the entries and members in the opposite order. -/
def reversedStylesTree : TokenTree :=
  .token "heading" ⟨.composite [("weight", "bold"), ("size", "{space.md}")], "typography"⟩
    (.group "space" (.token "md" mediumSize (.token "sm" smallSize .nil)) .nil)

theorem stylesTree_reordered : stylesTree.Reordered reversedStylesTree := by
  have hspace : TokenTree.Reordered (.token "sm" smallSize (.token "md" mediumSize .nil))
      (.token "md" mediumSize (.token "sm" smallSize .nil)) :=
    .swap "sm" "md" (.token smallSize) (.token mediumSize) .nil
  have hheading : Token.Reordered
      ⟨.composite [("size", "{space.md}"), ("weight", "bold")], "typography"⟩
      ⟨.composite [("weight", "bold"), ("size", "{space.md}")], "typography"⟩ :=
    ⟨.composite (.swap _ _ _), rfl⟩
  exact .trans (.group "space" hspace (.token "heading" hheading .nil))
    (.swap "space" "heading" (.group _) (.token _) .nil)

theorem isProper_stylesDocument : stylesDocument.IsProper := by
  simp [stylesDocument, HasDistinctKeys]

/-- The tree of `stylesDocument` loads, and its larger size has a text. -/
theorem load_stylesTree :
    ∃ tokens, (TokenSet.load stylesTree .standard).result = .ok tokens ∧
      (tokens.valueFor "space.md").result = .ok "8px" := by
  have hfault : stylesTree.fault? = none := by decide +kernel
  obtain ⟨tokens, hload⟩ := TokenSet.exists_load_of_fault? hfault
  let medium : PlacedValue := ⟨"{space.sm} * 2", "space.md.value", "dimension", none⟩
  have hfound : tokens.matching "space.md" = [medium.expression] := by
    rw [TokenSet.matching, TokenSet.expressions_of_load hload]
    decide +kernel
  have hvalue : (evaluate tokens.table medium.expression.toExpression).result =
      .ok (.number ⟨8, 0, by decide, by decide⟩ (some "px")) := by
    rw [TokenSet.evaluate_of_load hload]
    decide +kernel
  exact ⟨tokens, hload, (TokenSet.result_valueFor_eq_ok_iff
    (TokenSet.formatters_of_load hload)).mpr ⟨_, _, hfound, hvalue, by decide +kernel⟩⟩

theorem load_reordered_styles :
    stylesDocument.IsProper ∧ (TokenTree.ofJson stylesDocument).result = .ok stylesTree ∧
      stylesTree.Reordered reversedStylesTree ∧
      ∃ tokens tokens', (TokenSet.load stylesTree .standard).result = .ok tokens ∧
        (TokenSet.load reversedStylesTree .standard).result = .ok tokens' ∧
        tokens.outcomes.Perm tokens'.outcomes ∧
        (∀ key text, (tokens.valueFor key).result = .ok text ↔
          (tokens'.valueFor key).result = .ok text) ∧
        (tokens.valueFor "space.md").result = .ok "8px" ∧
        (tokens'.valueFor "space.md").result = .ok "8px" := by
  have htree : (TokenTree.ofJson stylesDocument).result = .ok stylesTree := rfl
  obtain ⟨hloads, hsame⟩ := load_reordered isProper_stylesDocument htree stylesTree_reordered
  obtain ⟨tokens, hload, htext⟩ := load_stylesTree
  obtain ⟨tokens', hload'⟩ := hloads.mp ⟨tokens, hload⟩
  obtain ⟨hperm, htexts⟩ := hsame tokens tokens' hload hload'
  exact ⟨isProper_stylesDocument, htree, stylesTree_reordered, tokens, tokens', hload, hload',
    hperm, htexts, htext, (htexts _ _).mp htext⟩

end DesignTokens
