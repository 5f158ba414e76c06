import DesignTokens.Proofs.Tree.Proper
import DesignTokens.Proofs.Tree.Values

set_option autoImplicit false

/-! # Trees up to the order of their entries

`TokenTree.Reordered` relates trees that differ only in the order of the entries inside
groups and of the members inside composite values, at any depth. Such trees have the same
values in another order (`Reordered.values_perm`). If no key occurs twice, they also answer
every path alike (`Reordered.leaf?_eq`), because no entry hides another.
-/

namespace DesignTokens

/-- The same value with its members in another order. -/
inductive RawValue.Reordered : RawValue → RawValue → Prop
  | scalar (text : String) : Reordered (.scalar text) (.scalar text)
  | composite {members members' : List (String × String)} (h : members.Perm members') :
      Reordered (.composite members) (.composite members')

/-- The same token with the members of its value in another order. -/
structure Token.Reordered (t t' : Token) : Prop where
  value : t.value.Reordered t'.value
  tokenType : t.tokenType = t'.tokenType

/-- The same tree with its entries in another order, at any depth. -/
inductive TokenTree.Reordered : TokenTree → TokenTree → Prop
  | nil : Reordered nil nil
  | group (key : String) {inner inner' rest rest' : TokenTree} (hinner : Reordered inner inner')
      (hrest : Reordered rest rest') : Reordered (group key inner rest) (group key inner' rest')
  | token (key : String) {t t' : Token} {rest rest' : TokenTree} (htoken : t.Reordered t')
      (hrest : Reordered rest rest') : Reordered (token key t rest) (token key t' rest')
  | swap (key key' : String) (node node' : TokenNode) (rest : TokenTree) :
      Reordered (cons key node (cons key' node' rest)) (cons key' node' (cons key node rest))
  | trans {tree tree' tree'' : TokenTree} (h : Reordered tree tree')
      (h' : Reordered tree' tree'') : Reordered tree tree''

/-! ## Values -/

namespace RawValue

variable {value value' : RawValue}

theorem Reordered.symm (h : value.Reordered value') : value'.Reordered value := by
  cases h with
  | scalar text => exact .scalar text
  | composite h => exact .composite h.symm

theorem Reordered.isProper (h : value.Reordered value') (hproper : value.IsProper) :
    value'.IsProper := by
  cases h with
  | scalar text => exact trivial
  | composite h => exact HasDistinctKeys.perm hproper h

end RawValue

namespace Token

variable {t t' : Token}

theorem Reordered.symm (h : t.Reordered t') : t'.Reordered t :=
  ⟨h.value.symm, h.tokenType.symm⟩

theorem Reordered.leaf?_eq (h : t.Reordered t') (hproper : t.value.IsProper)
    (path : List String) : t.leaf? path = t'.leaf? path := by
  obtain ⟨value, tokenType⟩ := t
  obtain ⟨value', tokenType'⟩ := t'
  obtain ⟨hvalue, -⟩ := h
  cases hvalue with
  | scalar text => rfl
  | composite hmembers =>
      unfold leaf?
      split
      · rfl
      · exact lookup_perm hproper hmembers _
      · rfl

theorem Reordered.values_perm (h : t.Reordered t') (path : String) :
    (t.values path).Perm (t'.values path) := by
  obtain ⟨value, tokenType⟩ := t
  obtain ⟨value', tokenType'⟩ := t'
  obtain ⟨hvalue, htype⟩ := h
  simp only at hvalue htype
  subst htype
  cases hvalue with
  | scalar text => exact .refl _
  | composite hmembers => exact hmembers.map _

end Token

/-! ## Trees -/

namespace TokenTree

variable {tree tree' : TokenTree}

theorem Reordered.symm (h : tree.Reordered tree') : tree'.Reordered tree := by
  induction h with
  | nil => exact .nil
  | group key _ _ ihInner ihRest => exact .group key ihInner ihRest
  | token key htoken _ ih => exact .token key htoken.symm ih
  | swap key key' node node' rest => exact .swap key' key node' node rest
  | trans _ _ ih ih' => exact .trans ih' ih

theorem Reordered.keys_perm (h : tree.Reordered tree') : tree.keys.Perm tree'.keys := by
  induction h with
  | nil => exact .refl _
  | group key _ _ _ ihRest => exact ihRest.cons key
  | token key _ _ ih => exact ih.cons key
  | swap key key' node node' rest =>
      simp only [keys_cons]
      exact .swap key' key rest.keys
  | trans _ _ ih ih' => exact ih.trans ih'

/-- Another order repeats no key. -/
theorem Reordered.isProper (h : tree.Reordered tree') (hproper : tree.IsProper) :
    tree'.IsProper := by
  induction h with
  | nil => exact .nil
  | group key _ hrest ihInner ihRest =>
      cases hproper with
      | group hkey hpinner hprest =>
          have hkey' := mt hrest.keys_perm.mem_iff.mpr hkey
          exact .group hkey' (ihInner hpinner) (ihRest hprest)
  | token key htoken hrest ih =>
      cases hproper with
      | token hkey hptoken hprest =>
          have hkey' := mt hrest.keys_perm.mem_iff.mpr hkey
          exact .token hkey' (htoken.value.isProper hptoken) (ih hprest)
  | swap key key' node node' rest =>
      obtain ⟨hkey, hnode, hrest⟩ := isProper_cons.mp hproper
      obtain ⟨hkey', hnode', hrest⟩ := isProper_cons.mp hrest
      rw [keys_cons, List.mem_cons, not_or] at hkey
      refine isProper_cons.mpr ⟨?_, hnode', isProper_cons.mpr ⟨hkey.2, hnode, hrest⟩⟩
      rw [keys_cons, List.mem_cons, not_or]
      exact ⟨Ne.symm hkey.1, hkey'⟩
  | trans _ _ ih ih' => exact ih' (ih hproper)

/-- Every path leads to the same text. -/
theorem Reordered.leaf?_eq (h : tree.Reordered tree') (hproper : tree.IsProper)
    (path : List String) : tree.leaf? path = tree'.leaf? path := by
  induction h generalizing path with
  | nil => rfl
  | group key _ _ ihInner ihRest =>
      cases hproper with
      | group _ hpinner hprest =>
          cases path with
          | nil => rfl
          | cons segment path =>
              rw [leaf?, leaf?, ihInner hpinner, ihRest hprest]
  | token key htoken _ ih =>
      cases hproper with
      | token _ hptoken hprest =>
          cases path with
          | nil => rfl
          | cons segment path =>
              rw [leaf?, leaf?, htoken.leaf?_eq hptoken, ih hprest]
  | swap key key' node node' rest =>
      cases path with
      | nil => cases node <;> cases node' <;> rfl
      | cons segment path =>
          -- the first entry of the segment is the only one
          have hget : (cons key node (cons key' node' rest)).get? segment =
              (cons key' node' (cons key node rest)).get? segment := by
            refine lookup_perm hproper.hasDistinctKeys ?_ segment
            simp only [entries_cons]
            exact .swap _ _ _
          rw [leaf?_cons, leaf?_cons, hget]
  | trans h _ ih ih' => rw [ih hproper, ih' (h.isProper hproper)]

theorem Reordered.rawValue?_eq (h : tree.Reordered tree') (hproper : tree.IsProper) :
    tree.rawValue? = tree'.rawValue? := by
  funext path
  rw [rawValue?, rawValue?, h.leaf?_eq hproper, h.leaf?_eq hproper]

/-- The values are the same, in another order. -/
theorem Reordered.values_perm (h : tree.Reordered tree') (parent : String) :
    (tree.values parent).Perm (tree'.values parent) := by
  induction h generalizing parent with
  | nil => exact .refl _
  | group key _ _ ihInner ihRest => exact (ihInner _).append (ihRest parent)
  | token key htoken _ ih => exact (htoken.values_perm _).append (ih parent)
  | swap key key' node node' rest =>
      cases node <;> cases node' <;> exact List.perm_append_comm_assoc _ _ _
  | trans _ _ ih ih' => exact (ih parent).trans (ih' parent)

end TokenTree

end DesignTokens
