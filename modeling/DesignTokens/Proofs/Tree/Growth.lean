import DesignTokens.Proofs.Tree.Readings
import DesignTokens.Tree.Values
import Mathlib.Logic.Relation
import Mathlib.Tactic.SplitIfs

set_option autoImplicit false

/-! # Growing trees

A tree grows when an entry is added after the others, in the root or in a group anywhere
below it (`TokenTree.Appended`). New entries may repeat keys, but they come last, so what a
path led to before it still leads to, and the values keep their order. `TokenTree.ExtendsTo`
is these two facts; it holds of every tree that another one grows to
(`TokenTree.extendsTo_of_appended`).
-/

namespace DesignTokens

namespace TokenTree

/-- One entry more, at the end of the tree or of a group in it. -/
inductive Appended : TokenTree → TokenTree → Prop
  | last (tree : TokenTree) (key : String) (node : TokenNode) : Appended tree (tree.push key node)
  | inGroup (before : TokenTree) (key : String) {inner inner' : TokenTree} (rest : TokenTree)
      (h : Appended inner inner') :
      Appended (before ++ group key inner rest) (before ++ group key inner' rest)

/-- A tree keeps what the paths of another lead to, and its values in their order. -/
structure ExtendsTo (tree tree' : TokenTree) : Prop where
  leaf? : ∀ path text, tree.leaf? path = some text → tree'.leaf? path = some text
  values : ∀ parent, (tree.values parent).Sublist (tree'.values parent)

namespace ExtendsTo

variable {tree tree' tree'' inner inner' rest rest' : TokenTree}

theorem refl (tree : TokenTree) : tree.ExtendsTo tree :=
  ⟨fun _ _ h => h, fun _ => .refl _⟩

theorem trans (h : tree.ExtendsTo tree') (h' : tree'.ExtendsTo tree'') : tree.ExtendsTo tree'' :=
  ⟨fun path text hleaf => h'.leaf? path text (h.leaf? path text hleaf),
    fun parent => (h.values parent).trans (h'.values parent)⟩

theorem ofNil (tree : TokenTree) : nil.ExtendsTo tree where
  leaf? _ _ hleaf := nomatch hleaf
  values _ := List.nil_sublist _

theorem group (key : String) (hinner : inner.ExtendsTo inner') (hrest : rest.ExtendsTo rest') :
    (TokenTree.group key inner rest).ExtendsTo (TokenTree.group key inner' rest') where
  leaf? path text hleaf := by
    cases path with
    | nil => cases hleaf
    | cons segment path =>
        rw [TokenTree.leaf?] at hleaf ⊢
        split_ifs at hleaf ⊢ with hsegment
        · exact hinner.leaf? path text hleaf
        · exact hrest.leaf? _ text hleaf
  values parent := (hinner.values _).append (hrest.values parent)

theorem token (key : String) (t : Token) (hrest : rest.ExtendsTo rest') :
    (TokenTree.token key t rest).ExtendsTo (TokenTree.token key t rest') where
  leaf? path text hleaf := by
    cases path with
    | nil => cases hleaf
    | cons segment path =>
        rw [TokenTree.leaf?] at hleaf ⊢
        split_ifs at hleaf ⊢ with hsegment
        · exact hleaf
        · exact hrest.leaf? _ text hleaf
  values parent := (List.Sublist.refl _).append (hrest.values parent)

/-- What stands before grown entries is kept. -/
theorem append_left (before : TokenTree) (h : rest.ExtendsTo rest') :
    (before ++ rest).ExtendsTo (before ++ rest') := by
  induction before with
  | nil => exact h
  | group key inner before _ ih => exact group key (refl inner) ih
  | token key t before ih => exact token key t ih

/-- A raw value is kept, whichever reading found it. -/
theorem rawValue? (h : tree.ExtendsTo tree') {path text : String}
    (hraw : tree.rawValue? path = some text) : tree'.rawValue? path = some text := by
  rw [rawValue?_eq_some_iff] at hraw ⊢
  rcases hraw with hraw | hraw
  · exact Or.inl (h.leaf? _ text hraw)
  · exact Or.inr (h.leaf? _ text hraw)

end ExtendsTo

theorem append_nil (tree : TokenTree) : tree ++ nil = tree := by
  induction tree with
  | nil => rfl
  | group key inner rest _ ih => rw [group_append, ih]
  | token key t rest ih => rw [token_append, ih]

theorem Appended.extendsTo {tree tree' : TokenTree} (h : tree.Appended tree') :
    tree.ExtendsTo tree' := by
  induction h with
  | last tree key node =>
      have happend := (ExtendsTo.ofNil (cons key node nil)).append_left tree
      rwa [append_nil] at happend
  | inGroup before key rest _ ih => exact (ExtendsTo.group key ih (.refl rest)).append_left before

/-- A tree that grew by any number of entries keeps what it had. -/
theorem extendsTo_of_appended {tree tree' : TokenTree}
    (h : Relation.ReflTransGen Appended tree tree') : tree.ExtendsTo tree' := by
  induction h with
  | refl => exact .refl tree
  | tail _ hstep ih => exact ih.trans hstep.extendsTo

end TokenTree

end DesignTokens
