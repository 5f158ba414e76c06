import DesignTokens.Proofs.Evaluation.Agreement
import DesignTokens.Proofs.Tokens.Faults
import DesignTokens.Proofs.Tree.Growth

set_option autoImplicit false

/-! # Adding tokens changes no others

A tree that loads and grows to another one that loads keeps its expressions, and each of
them evaluates as before (`load_appended`). What an expression leads to is in the table of
the smaller tree with a value of that tree, and the larger tree gives the same answer.
-/

namespace DesignTokens

namespace TokenTree.ExtendsTo

variable {tree tree' : TokenTree}

theorem mem_references (h : tree.ExtendsTo tree') {r : String} (hr : r ∈ tree.references) :
    r ∈ tree'.references := by
  obtain ⟨value, hvalue, hr⟩ := mem_references_iff.mp hr
  exact mem_references_iff.mpr ⟨value, (h.values "").subset hvalue, hr⟩

end TokenTree.ExtendsTo

namespace TokenSet

variable {tree tree' : TokenTree} {formatters formatters' : FormatterRegistry}
  {tokens tokens' : TokenSet}

/-- The table of a larger tree agrees with that of a smaller one wherever the smaller one
has a value. -/
theorem get?_of_extendsTo (h : tree.ExtendsTo tree')
    (hload : (load tree formatters).result = .ok tokens)
    (hload' : (load tree' formatters').result = .ok tokens') {r raw : String}
    (hget : tokens.table.get? r = some raw) : tokens'.table.get? r = some raw := by
  obtain ⟨hmem, hraw⟩ := (get?_eq_some_iff_of_load hload).mp hget
  exact (get?_eq_some_iff_of_load hload').mpr ⟨h.mem_references hmem, h.rawValue? hraw⟩

end TokenSet

/-- **Adding tokens changes no others.** Take a tree that loads, and let it grow by entries
at the end of the root or of groups at any depth, whatever their keys, to a tree that loads.
Then the expressions of the first are among those of the second, in the same order, and each
of them has the same result, be it a value or an error. -/
theorem load_appended {tree tree' : TokenTree}
    (h : Relation.ReflTransGen TokenTree.Appended tree tree') {tokens tokens' : TokenSet}
    (hload : (TokenSet.load tree .standard).result = .ok tokens)
    (hload' : (TokenSet.load tree' .standard).result = .ok tokens') :
    tokens.expressions.Sublist tokens'.expressions ∧
      ∀ e ∈ tokens.expressions, (evaluate tokens'.table e.toExpression).result =
        (evaluate tokens.table e.toExpression).result := by
  have hextends := TokenTree.extendsTo_of_appended h
  constructor
  · rw [TokenSet.expressions_of_load hload, TokenSet.expressions_of_load hload']
    exact (hextends.values "").map PlacedValue.expression
  · intro e he
    have hsame : ∀ r, tokens.table.Reaches e.toExpression r →
        tokens.table.get? r = tokens'.table.get? r := by
      intro r hr
      obtain ⟨raw, -, hget, -⟩ := TokenSet.isReadable_of_load hload he hr
      rw [hget, TokenSet.get?_of_extendsTo hextends hload hload' hget]
    rw [evaluate_of_reaches hsame]

/-- A size in a group, and a token that refers to it. -/
def spacingTree : TokenTree :=
  .group "space" (.token "sm" ⟨.scalar "4px", "dimension"⟩ .nil)
    (.token "gap" ⟨.scalar "{space.sm} * 2", "dimension"⟩ .nil)

/-- The same with a second size of the same name in the group, and a second group of the
same name after it. -/
def grownSpacingTree : TokenTree :=
  (TokenTree.group "space" (.token "sm" ⟨.scalar "4px", "dimension"⟩
        (.token "sm" ⟨.scalar "{gap}", "dimension"⟩ .nil))
      (.token "gap" ⟨.scalar "{space.sm} * 2", "dimension"⟩ .nil)).push "space"
    (.group (.token "sm" ⟨.scalar "1rem", "dimension"⟩ .nil))

theorem appended_spacing :
    Relation.ReflTransGen TokenTree.Appended spacingTree grownSpacingTree := by
  have hinner := TokenTree.Appended.last (.token "sm" ⟨.scalar "4px", "dimension"⟩ .nil) "sm"
    (.token ⟨.scalar "{gap}", "dimension"⟩)
  exact .tail (.single (.inGroup .nil "space" _ hinner)) (.last _ _ _)

theorem load_appended_spacing :
    ∃ tokens tokens', (TokenSet.load spacingTree .standard).result = .ok tokens ∧
      (TokenSet.load grownSpacingTree .standard).result = .ok tokens' ∧
      tokens.expressions.Sublist tokens'.expressions ∧
      (∀ e ∈ tokens.expressions, (evaluate tokens'.table e.toExpression).result =
        (evaluate tokens.table e.toExpression).result) ∧
      tokens.expressions.map (fun e => (e.path,
          (evaluate tokens'.table e.toExpression).result.map Evaluated.display)) =
        [("space.sm.value", .ok "4px"), ("gap.value", .ok "8px")] := by
  have hfault : spacingTree.fault? = none := by decide +kernel
  have hfault' : grownSpacingTree.fault? = none := by decide +kernel
  obtain ⟨tokens, hload⟩ := TokenSet.exists_load_of_fault? hfault
  obtain ⟨tokens', hload'⟩ := TokenSet.exists_load_of_fault? hfault'
  obtain ⟨hsublist, hsame⟩ := load_appended appended_spacing hload hload'
  refine ⟨tokens, tokens', hload, hload', hsublist, hsame, ?_⟩
  simp only [TokenSet.evaluate_of_load hload', TokenSet.expressions_of_load hload]
  decide +kernel

end DesignTokens
