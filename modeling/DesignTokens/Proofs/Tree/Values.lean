import DesignTokens.Proofs.Traversal
import DesignTokens.Tree.Values

set_option autoImplicit false

/-! # Flattening a tree

`TokenTree.flatten` succeeds exactly when every value of the tree is an expression, and then
gives the expressions of the values one by one (`result_flatten_eq_ok_iff`). So values in
another order give the same expressions in another order (`exists_flatten_of_perm`).
-/

namespace DesignTokens

namespace TokenTree

variable {parent parent' : String} {tree tree' : TokenTree} {expressions : List TokenExpression}

theorem result_flatten_eq_ok_iff :
    (tree.flatten parent).result = .ok expressions ↔
      List.Forall₂ (fun value e => value.read.result = .ok e) (tree.values parent) expressions :=
  Traced.result_mapM_eq_ok_iff

/-- The same values in another order are flattened to the same expressions in another
order. -/
theorem exists_flatten_of_perm (hperm : (tree.values parent).Perm (tree'.values parent'))
    (h : (tree.flatten parent).result = .ok expressions) :
    ∃ expressions', (tree'.flatten parent').result = .ok expressions' ∧
      expressions.Perm expressions' :=
  Traced.exists_mapM_of_perm hperm h

end TokenTree

end DesignTokens
