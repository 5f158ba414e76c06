import DesignTokens.Proofs.Tree.Locations

set_option autoImplicit false

/-! # The walk and the lookup

`TokenTree.flatten` walks over a tree and names every value by a path; `TokenTree.leaf?`
follows a path that was cut into segments. Both say which values a tree has, and they say the
same (`flatten_leaf?`), even where groups, tokens and members are named `value`.

One half is `TokenTree.exists_locates`: the path of a value is made of segments that lead to
it. The other half is `TokenTree.exists_standsAt`: what a path leads to was placed there by
the walk, with the type of the token that the path leads into (`TokenTree.enclosing?`).
-/

namespace DesignTokens

/-- A key that is one segment of a path: it is not empty and has no points. -/
def isSegment (key : String) : Bool := !key.isEmpty && !key.toList.contains '.'

theorem isSegment_iff {key : String} : isSegment key = true ↔ key ≠ "" ∧ '.' ∉ key.toList := by
  simp [isSegment]

/-- The key of the member that a path into a token ends with; scalar tokens have none. -/
def Token.memberKey? (t : Token) (path : List String) : Option String :=
  match t.value with
  | .scalar _ => none
  | .composite _ => path.getLast?

namespace TokenTree

/-- The token that a path leads into. -/
def enclosing? : TokenTree → List String → Option Token
  | nil, _ => none
  | group _ _ _, [] => none
  | token _ _ _, [] => none
  | group key inner rest, segment :: path =>
    if segment = key then inner.enclosing? path else rest.enclosing? (segment :: path)
  | token key t rest, segment :: path =>
    if segment = key then some t else rest.enclosing? (segment :: path)

variable {key segment text : String} {tree inner rest : TokenTree} {t : Token}
  {parents path place : List String} {value : PlacedValue}

/-- The walk over the tree below `parents` placed a value where a path leads to. -/
structure StandsAt (tree : TokenTree) (parents place : List String) (value : PlacedValue) :
    Prop where
  mem : value ∈ tree.values (joinSegments parents)
  path : value.path = joinSegments (parents ++ place)
  enclosing : ∃ t, tree.enclosing? place = some t ∧ value.tokenType = t.tokenType ∧
    value.member = t.memberKey? place

namespace StandsAt

theorem inGroup (hparents : ∀ key ∈ parents, key ≠ "") (hplace : place ≠ [])
    (h : inner.StandsAt (parents ++ [key]) place value) :
    (group key inner rest).StandsAt parents (key :: place) value where
  mem := by
    rw [values, childPath_joinSegments hparents]
    exact List.mem_append_left _ h.mem
  path := by rw [h.path, List.append_assoc, List.singleton_append]
  enclosing := by
    obtain ⟨t, htoken, htype, hmember⟩ := h.enclosing
    refine ⟨t, by rw [enclosing?, if_pos rfl, htoken], htype, ?_⟩
    rw [hmember, Token.memberKey?, Token.memberKey?, List.getLast?_cons_of_ne_nil hplace]

theorem behindGroup (hsegment : segment ≠ key) (h : rest.StandsAt parents (segment :: path) value) :
    (group key inner rest).StandsAt parents (segment :: path) value where
  mem := List.mem_append_right _ h.mem
  path := h.path
  enclosing := by
    rw [enclosing?, if_neg hsegment]
    exact h.enclosing

theorem behindToken (hsegment : segment ≠ key) (h : rest.StandsAt parents (segment :: path) value) :
    (token key t rest).StandsAt parents (segment :: path) value where
  mem := List.mem_append_right _ h.mem
  path := h.path
  enclosing := by
    rw [enclosing?, if_neg hsegment]
    exact h.enclosing

/-- What a path into a token leads to is the value, or one of the members. -/
theorem inToken (hparents : ∀ key ∈ parents, key ≠ "") (h : t.leaf? path = some text) :
    ∃ value, value.text = text ∧ (token key t rest).StandsAt parents (key :: path) value := by
  have hne : parents ++ [key] ≠ [] := List.append_ne_nil_of_right_ne_nil _ (List.cons_ne_nil _ _)
  have hmem : ∀ value ∈ t.values (joinSegments (parents ++ [key])),
      value ∈ (token key t rest).values (joinSegments parents) := by
    intro value hvalue
    rw [values, childPath_joinSegments hparents]
    exact List.mem_append_left _ hvalue
  have htoken : (token key t rest).enclosing? (key :: path) = some t := by
    rw [enclosing?, if_pos rfl]
  obtain ⟨content, tokenType⟩ := t
  unfold Token.leaf? at h
  split at h
  · cases content with
    | composite members => cases h
    | scalar content =>
        cases h
        refine ⟨_, rfl, hmem _ (List.mem_singleton_self _), ?_, _, htoken, rfl, rfl⟩
        rw [← joinSegments_value hne, List.append_assoc]
        rfl
  · rename_i member
    cases content with
    | scalar content => cases h
    | composite members =>
        have hmember : (member, text) ∈ members := mem_of_lookup_eq_some h
        refine ⟨_, rfl, hmem _ (List.mem_map_of_mem hmember), ?_, _, htoken, rfl, rfl⟩
        show joinSegments (parents ++ [key]) ++ ".value." ++ member = _
        rw [← joinSegments_member hne, List.append_assoc]
        rfl
  · cases h

end StandsAt

/-- What a path leads to was placed there by the walk. -/
theorem exists_standsAt (hkeys : tree.allKeys (fun key => !key.isEmpty) = true)
    (hparents : ∀ key ∈ parents, key ≠ "") (h : tree.leaf? place = some text) :
    ∃ value, value.text = text ∧ tree.StandsAt parents place value := by
  induction tree generalizing parents place with
  | nil => cases h
  | group key inner rest ihInner ihRest =>
      simp only [allKeys, Bool.and_eq_true] at hkeys
      cases place with
      | nil => cases h
      | cons segment path =>
          rw [leaf?] at h
          split_ifs at h with hsegment
          · subst hsegment
            -- the key of the group joins the parents of what is in it
            have hlonger :=
              forall_ne_empty_concat hparents (by simpa using hkeys.1.1 : segment ≠ "")
            obtain ⟨key, more, rfl, -⟩ := exists_key_of_leaf? h
            obtain ⟨value, htext, hvalue⟩ := ihInner hkeys.1.2 hlonger h
            exact ⟨value, htext, hvalue.inGroup hparents (List.cons_ne_nil _ _)⟩
          · obtain ⟨value, htext, hvalue⟩ := ihRest hkeys.2 hparents h
            exact ⟨value, htext, hvalue.behindGroup hsegment⟩
  | token key t rest ih =>
      simp only [allKeys, Bool.and_eq_true] at hkeys
      cases place with
      | nil => cases h
      | cons segment path =>
          rw [leaf?] at h
          split_ifs at h with hsegment
          · subst hsegment
            exact StandsAt.inToken hparents h
          · obtain ⟨value, htext, hvalue⟩ := ih hkeys.2 hparents h
            exact ⟨value, htext, hvalue.behindToken hsegment⟩

theorem allKeys_nonempty_of_isSegment (hkeys : tree.allKeys isSegment = true) :
    tree.allKeys (fun key => !key.isEmpty) = true :=
  allKeys_mono (fun _ hkey => (Bool.and_eq_true_iff.mp hkey).1) hkeys

/-- The segments of the path of a value lead to it, if every key is one segment. -/
theorem leaf?_segments (hproper : tree.IsProper) (hkeys : tree.allKeys isSegment = true)
    (hvalue : value ∈ tree.values "") : tree.leaf? (segments value.path) = some value.text := by
  have hnonempty := allKeys_nonempty_of_isSegment hkeys
  have hroot : value ∈ tree.values (joinSegments []) := by rwa [joinSegments_nil]
  obtain ⟨place, hplace⟩ := exists_locates hproper hnonempty (List.forall_mem_nil _) hroot
  have hsegments : ∀ part ∈ place, isSegment part = true :=
    forall_mem_of_leaf? hkeys (by decide) hplace.leaf?
  obtain ⟨key, more, rfl, -⟩ := exists_key_of_leaf? hplace.leaf?
  rw [hplace.path, List.nil_append, segments_joinSegments (List.cons_ne_nil _ _)
    fun part hpart => (isSegment_iff.mp (hsegments part hpart)).2]
  exact hplace.leaf?

end TokenTree

/-- **The walk and the lookup see the same values.** Take the tree of a document without
repeated keys whose keys are segments, and its expressions. The path of every expression, cut
at its points, leads to a text that the expression was read from. The other way round, what
any path leads to is the text of an expression that has this path, joined by points, and the
type of the token that the path leads into; the expression is that of a member exactly if the
token is composite, and then the member's key is the last segment. -/
theorem flatten_leaf? {document : Json} {tree : TokenTree} {expressions : List TokenExpression}
    (hdocument : document.IsProper) (htree : (TokenTree.ofJson document).result = .ok tree)
    (hkeys : tree.allKeys isSegment = true)
    (hflatten : (tree.flatten "").result = .ok expressions) :
    (∀ e ∈ expressions, ∃ text, tree.leaf? (segments e.path) = some text ∧
      e.source = stripBlanks text) ∧
    ∀ path text, tree.leaf? path = some text → ∃ e ∈ expressions,
      e.path = joinSegments path ∧ e.source = stripBlanks text ∧
        ∃ t, tree.enclosing? path = some t ∧ e.tokenType = t.tokenType ∧
          e.member = t.memberKey? path := by
  have hproper := TokenTree.isProper_of_ofJson hdocument htree
  obtain ⟨-, rfl⟩ := TokenTree.flatten_eq_ok_iff.mp hflatten
  constructor
  · intro e he
    obtain ⟨value, hvalue, rfl⟩ := List.mem_map.mp he
    exact ⟨value.text, TokenTree.leaf?_segments hproper hkeys hvalue, rfl⟩
  · intro path text hleaf
    have hnonempty := TokenTree.allKeys_nonempty_of_isSegment hkeys
    obtain ⟨value, rfl, hvalue⟩ :=
      TokenTree.exists_standsAt hnonempty (List.forall_mem_nil fun key => key ≠ "") hleaf
    have hmem : value ∈ tree.values "" := by simpa using hvalue.mem
    refine ⟨value.expression, List.mem_map_of_mem hmem, ?_, rfl, hvalue.enclosing⟩
    rw [← List.nil_append path]
    exact hvalue.path

/-- A group, a token and a member with the key `value`. -/
def valueNamesDocument : Json :=
  .object [
    ("$schema", .text "draft"),
    ("value", .object [
      ("value", .object [("type", .text "dimension"), ("value", .text "2 px")]),
      ("text", .object [("type", .text "typography"),
        ("value", .object [("value", .text "{value.value} * 4"), ("bold", .bool true)])])])]

/-- The tree of `valueNamesDocument`. -/
def valueNamesTree : TokenTree :=
  .group "value"
    (.token "value" ⟨.scalar "2 px", "dimension"⟩
      (.token "text" ⟨.composite [("value", "{value.value} * 4"), ("bold", "true")], "typography"⟩
        .nil))
    .nil

theorem isProper_valueNamesDocument : valueNamesDocument.IsProper := by
  simp [valueNamesDocument, HasDistinctKeys]

theorem flatten_leaf?_valueNames :
    valueNamesDocument.IsProper ∧
      (TokenTree.ofJson valueNamesDocument).result = .ok valueNamesTree ∧
      valueNamesTree.allKeys isSegment = true ∧
      valueNamesTree.leaf? ["value", "text", "value", "value"] = some "{value.value} * 4" ∧
      ∃ expressions, (valueNamesTree.flatten "").result = .ok expressions ∧
        (∀ e ∈ expressions, ∃ text, valueNamesTree.leaf? (segments e.path) = some text ∧
          e.source = stripBlanks text) ∧
        ∃ e ∈ expressions, e.path = "value.text.value.value" ∧ e.source = "{value.value}*4" ∧
          e.tokenType = "typography" ∧ e.member = some "value" := by
  have htree : (TokenTree.ofJson valueNamesDocument).result = .ok valueNamesTree := rfl
  have hkeys : valueNamesTree.allKeys isSegment = true := by decide
  have hleaf : valueNamesTree.leaf? ["value", "text", "value", "value"] =
      some "{value.value} * 4" := by
    decide
  have hflatten : (valueNamesTree.flatten "").result = .ok _ :=
    TokenTree.flatten_eq_ok_iff.mpr ⟨by decide, rfl⟩
  obtain ⟨hwalk, hlookup⟩ := flatten_leaf? isProper_valueNamesDocument htree hkeys hflatten
  obtain ⟨e, he, hpath, hsource, t, htoken, htype, hmember⟩ := hlookup _ _ hleaf
  cases htoken
  have hstripped : stripBlanks "{value.value} * 4" = "{value.value}*4" := by decide +kernel
  exact ⟨isProper_valueNamesDocument, htree, hkeys, hleaf, _, hflatten, hwalk, e, he, hpath,
    hsource.trans hstripped, htype, hmember⟩

end DesignTokens
