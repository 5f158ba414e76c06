import DesignTokens.Proofs.Tree.Paths
import DesignTokens.Proofs.Tree.Proper
import DesignTokens.Proofs.Tree.Readings
import DesignTokens.Proofs.Tree.References

set_option autoImplicit false

/-! # Where the values of a tree stand

The walk over a tree gives every value a path, and a reference follows the segments of a
path. In the tree of a document the two meet: the path of a value is made of segments that
lead to it (`TokenTree.exists_locates`). If all keys are plain, these are the segments that a
reference reads from the path, so that the path stands for the value, and without its
`.value` as well if the token is scalar (`TokenTree.rawValue?_of_isNamedBy`).
-/

namespace DesignTokens

/-! ## Keys -/

/-- Whether all keys of the members of a value have a property. -/
def RawValue.allKeys (p : String → Bool) : RawValue → Bool
  | .scalar _ => true
  | .composite members => members.all fun member => p member.1

/-- Whether all keys in a tree have a property: those of groups, of tokens and of the members
of composite values. -/
def TokenTree.allKeys (p : String → Bool) : TokenTree → Bool
  | nil => true
  | group key inner rest => p key && inner.allKeys p && rest.allKeys p
  | token key t rest => p key && t.value.allKeys p && rest.allKeys p

section

variable {p q : String → Bool}

theorem RawValue.allKeys_mono (hpq : ∀ key, p key = true → q key = true) {value : RawValue}
    (h : value.allKeys p = true) : value.allKeys q = true := by
  cases value with
  | scalar text => rfl
  | composite members =>
      rw [allKeys, List.all_eq_true] at h ⊢
      exact fun member hmember => hpq member.1 (h member hmember)

theorem TokenTree.allKeys_mono (hpq : ∀ key, p key = true → q key = true) {tree : TokenTree}
    (h : tree.allKeys p = true) : tree.allKeys q = true := by
  induction tree with
  | nil => rfl
  | group key inner rest ihInner ihRest =>
      simp only [allKeys, Bool.and_eq_true] at h ⊢
      exact ⟨⟨hpq key h.1.1, ihInner h.1.2⟩, ihRest h.2⟩
  | token key t rest ih =>
      simp only [allKeys, Bool.and_eq_true] at h ⊢
      exact ⟨⟨hpq key h.1.1, RawValue.allKeys_mono hpq h.1.2⟩, ih h.2⟩

/-- A path into a token is `value`, and the key of a member if the token is composite. -/
theorem Token.forall_mem_of_leaf? {t : Token} (hkeys : t.value.allKeys p = true)
    (hvalue : p "value" = true) {path : List String} {text : String}
    (h : t.leaf? path = some text) : ∀ segment ∈ path, p segment = true := by
  obtain ⟨value, tokenType⟩ := t
  unfold leaf? at h
  split at h
  · simpa using hvalue
  · rename_i key
    cases value with
    | scalar content => cases h
    | composite members =>
        have hmem : (key, text) ∈ members := mem_of_lookup_eq_some h
        have hkey : p key = true := List.all_eq_true.mp hkeys (key, text) hmem
        simp [hvalue, hkey]
  · cases h

/-- A path to a text is made of keys of the tree and `value`. -/
theorem TokenTree.forall_mem_of_leaf? {tree : TokenTree} (hkeys : tree.allKeys p = true)
    (hvalue : p "value" = true) {path : List String} {text : String}
    (h : tree.leaf? path = some text) : ∀ segment ∈ path, p segment = true := by
  induction tree generalizing path with
  | nil => cases h
  | group key inner rest ihInner ihRest =>
      simp only [allKeys, Bool.and_eq_true] at hkeys
      cases path with
      | nil => cases h
      | cons segment path =>
          rw [leaf?] at h
          split_ifs at h with hsegment
          · refine List.forall_mem_cons.mpr ⟨?_, ihInner hkeys.1.2 h⟩
            rw [hsegment]
            exact hkeys.1.1
          · exact ihRest hkeys.2 h
  | token key t rest ih =>
      simp only [allKeys, Bool.and_eq_true] at hkeys
      cases path with
      | nil => cases h
      | cons segment path =>
          rw [leaf?] at h
          split_ifs at h with hsegment
          · refine List.forall_mem_cons.mpr ⟨?_, Token.forall_mem_of_leaf? hkeys.1.2 hvalue h⟩
            rw [hsegment]
            exact hkeys.1.1
          · exact ih hkeys.2 h

end

/-! ## Values and their segments -/

namespace TokenTree

variable {key : String} {node : TokenNode} {tree inner rest : TokenTree} {t : Token}
  {parents place : List String} {value : PlacedValue}

/-- A path starts with a key of the tree. -/
theorem exists_key_of_leaf? {path : List String} {text : String}
    (h : tree.leaf? path = some text) : ∃ key more, path = key :: more ∧ key ∈ tree.keys := by
  cases path with
  | nil => cases tree <;> cases h
  | cons key more =>
      refine ⟨key, more, rfl, lookup_isSome_iff.mp ?_⟩
      rw [leaf?_cons, get?] at h
      cases hnode : tree.entries.lookup key with
      | none =>
          rw [hnode] at h
          cases h
      | some node => rfl

/-- An entry with a key of its own in front changes no path. -/
theorem leaf?_cons_of_notMem (hkey : key ∉ rest.keys) {path : List String} {text : String}
    (h : rest.leaf? path = some text) : (cons key node rest).leaf? path = some text := by
  obtain ⟨segment, more, rfl, hmem⟩ := exists_key_of_leaf? h
  have hne : segment ≠ key := by
    rintro rfl
    exact hkey hmem
  rw [leaf?_cons] at h ⊢
  rwa [get?, entries_cons, List.lookup_cons, beq_eq_false_iff_ne.mpr hne]

/-- Segments that lead from a group to one of its values, given those that lead to the
group. -/
structure Locates (tree : TokenTree) (parents place : List String) (value : PlacedValue) :
    Prop where
  path : value.path = joinSegments (parents ++ place)
  leaf? : tree.leaf? place = some value.text
  scalar : value.member = none → ∃ token, token ≠ [] ∧ place = token ++ ["value"]

namespace Locates

theorem inGroup (h : inner.Locates (parents ++ [key]) place value) :
    (group key inner rest).Locates parents (key :: place) value where
  path := by rw [h.path, List.append_assoc, List.singleton_append]
  leaf? := by rw [TokenTree.leaf?, if_pos rfl, h.leaf?]
  scalar hmember := by
    obtain ⟨token, -, hplace⟩ := h.scalar hmember
    exact ⟨key :: token, List.cons_ne_nil _ _, by rw [hplace, List.cons_append]⟩

theorem inRest (node : TokenNode) (hkey : key ∉ rest.keys) (h : rest.Locates parents place value) :
    (cons key node rest).Locates parents place value :=
  ⟨h.path, leaf?_cons_of_notMem hkey h.leaf?, h.scalar⟩

end Locates

/-- The segments of a value of a token start with the key of the token. -/
theorem exists_locates_token (hproper : t.value.IsProper)
    (hvalue : value ∈ t.values (joinSegments (parents ++ [key]))) :
    ∃ place, (token key t rest).Locates parents place value := by
  have hne : parents ++ [key] ≠ [] := List.append_ne_nil_of_right_ne_nil _ (List.cons_ne_nil _ _)
  obtain ⟨content, tokenType⟩ := t
  cases content with
  | scalar text =>
      rw [List.mem_singleton.mp hvalue]
      refine ⟨[key, "value"], ?_, ?_, fun _ => ⟨[key], List.cons_ne_nil _ _, rfl⟩⟩
      · rw [← joinSegments_value hne, List.append_assoc]
        rfl
      · rw [leaf?, if_pos rfl]
        rfl
  | composite members =>
      obtain ⟨⟨member, text⟩, hmember, rfl⟩ := List.mem_map.mp hvalue
      refine ⟨[key, "value", member], ?_, ?_, fun hnone => by cases hnone⟩
      · show joinSegments (parents ++ [key]) ++ ".value." ++ member = _
        rw [← joinSegments_member hne, List.append_assoc]
        rfl
      · rw [leaf?, if_pos rfl]
        exact (lookup_eq_some_iff_mem hproper).mpr hmember

/-- In a tree without repeated keys the path of a value is made of segments that lead to
it. -/
theorem exists_locates (hproper : tree.IsProper)
    (hkeys : tree.allKeys (fun key => !key.isEmpty) = true) (hparents : ∀ key ∈ parents, key ≠ "")
    (hvalue : value ∈ tree.values (joinSegments parents)) :
    ∃ place, tree.Locates parents place value := by
  -- the key of a group joins the parents of what is in it
  induction hproper generalizing parents with
  | nil => cases hvalue
  | @group key inner rest hkey hinner hrest ihInner ihRest =>
      simp only [allKeys, Bool.and_eq_true] at hkeys
      rcases List.mem_append.mp hvalue with hvalue | hvalue
      · have hlonger := forall_ne_empty_concat hparents (by simpa using hkeys.1.1 : key ≠ "")
        rw [childPath_joinSegments hparents] at hvalue
        obtain ⟨place, hplace⟩ := ihInner hkeys.1.2 hlonger hvalue
        exact ⟨key :: place, hplace.inGroup⟩
      · -- what stands behind the group is not shadowed by it, for no key is repeated
        obtain ⟨place, hplace⟩ := ihRest hkeys.2 hparents hvalue
        exact ⟨place, hplace.inRest (.group inner) hkey⟩
  | @token key t rest hkey htoken hrest ih =>
      simp only [allKeys, Bool.and_eq_true] at hkeys
      rcases List.mem_append.mp hvalue with hvalue | hvalue
      · rw [childPath_joinSegments hparents] at hvalue
        exact exists_locates_token htoken hvalue
      · obtain ⟨place, hplace⟩ := ih hkeys.2 hparents hvalue
        exact ⟨place, hplace.inRest (.token t) hkey⟩

end TokenTree

/-! ## Names -/

/-- The paths a reference may name an expression by: its own, and without `.value` at the end
if it is that of a scalar token. -/
def TokenExpression.IsNamedBy (e : TokenExpression) (path : String) : Prop :=
  path = e.path ∨ e.member = none ∧ e.path = path ++ ".value"

namespace TokenTree

variable {tree : TokenTree} {value : PlacedValue} {path : String}

/-- A name of a value is made of keys, and one of its two readings leads to the value. -/
theorem exists_segments_of_isNamedBy (hproper : tree.IsProper)
    (hkeys : tree.allKeys isPlainKey = true) (hvalue : value ∈ tree.values "")
    (hnamed : value.expression.IsNamedBy path) :
    ∃ parts, parts ≠ [] ∧ (∀ part ∈ parts, isPlainKey part = true) ∧ path = joinSegments parts ∧
      (tree.leaf? (parts ++ ["value"]) = some value.text ∨ tree.leaf? parts = some value.text) := by
  have hnonempty : tree.allKeys (fun key => !key.isEmpty) = true :=
    allKeys_mono (fun key hkey => (Bool.and_eq_true_iff.mp hkey).1) hkeys
  have hroot : value ∈ tree.values (joinSegments []) := by rwa [joinSegments_nil]
  obtain ⟨place, hplace⟩ := exists_locates hproper hnonempty (List.forall_mem_nil _) hroot
  have hplain : ∀ part ∈ place, isPlainKey part = true :=
    forall_mem_of_leaf? hkeys (by decide) hplace.leaf?
  rcases hnamed with rfl | ⟨hmember, hpath⟩
  · obtain ⟨key, more, rfl, -⟩ := exists_key_of_leaf? hplace.leaf?
    exact ⟨_, List.cons_ne_nil _ _, hplain, hplace.path, Or.inr hplace.leaf?⟩
  · obtain ⟨token, hne, rfl⟩ := hplace.scalar hmember
    refine ⟨token, hne, fun part hpart => hplain part (List.mem_append_left _ hpart), ?_,
      Or.inl hplace.leaf?⟩
    have hjoin : path ++ ".value" = joinSegments token ++ ".value" := by
      rw [← hpath, ← joinSegments_value hne]
      exact hplace.path
    exact (String.append_left_inj _).mp hjoin

/-- A name of a value can be written in a reference, and stands for the value. -/
theorem rawValue?_of_isNamedBy (hproper : tree.IsProper) (hkeys : tree.allKeys isPlainKey = true)
    (hvalue : value ∈ tree.values "") (hnamed : value.expression.IsNamedBy path) :
    path ≠ "" ∧ (∀ c ∈ path.toList, isPathChar c = true) ∧
      tree.rawValue? path = some value.text := by
  obtain ⟨parts, hne, hplain, rfl, hreading⟩ :=
    exists_segments_of_isNamedBy hproper hkeys hvalue hnamed
  have hsegments : segments (joinSegments parts) = parts :=
    segments_joinSegments hne fun part hpart => notMem_of_isPlainKey (hplain part hpart)
  refine ⟨joinSegments_ne_empty hne fun part hpart => (isPlainKey_iff.mp (hplain part hpart)).1,
    isPathChar_of_mem_joinSegments hplain, ?_⟩
  rw [rawValue?_eq_some_iff, hsegments]
  exact hreading

end TokenTree

end DesignTokens
