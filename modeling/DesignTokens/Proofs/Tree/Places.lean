import DesignTokens.Proofs.Tree.Locations
import Mathlib.Data.List.Nodup

set_option autoImplicit false

/-! # The places of values

A value stands at a place: the keys that lead to its token, and the key of the member if the
token is composite. The places of a tree without repeated keys are all different
(`TokenTree.nodup_segments`), and the path of a value is written from its place
(`TokenTree.map_path_values`).

A path does not show empty keys at its front. A group whose path is empty looks like the root
to the entries in it, so a key under it makes the same path as the key alone
(`pathOfKeys_eq`, `shownKeys`). Where keys have no points, this is the only way for two places
to have the same path, and it takes a group with the empty key at the root
(`flatten_paths_nodup`).
-/

namespace DesignTokens

/-! ## Paths of keys -/

/-- The path of the entry that keys lead to. -/
def pathOfKeys (keys : List String) : String := keys.foldl childPath ""

/-- The keys that a path shows: empty keys in front of another key are left out. -/
def shownKeys : List String → List String
  | first :: key :: keys =>
    if first = "" then shownKeys (key :: keys) else first :: key :: keys
  | keys => keys

section

variable {parts keys : List String} {key : String}

theorem pathOfKeys_concat (keys : List String) (key : String) :
    pathOfKeys (keys ++ [key]) = childPath (pathOfKeys keys) key := by
  rw [pathOfKeys, List.foldl_append]
  rfl

theorem shownKeys_ne_nil (hkeys : keys ≠ []) : shownKeys keys ≠ [] := by
  induction keys with
  | nil => exact absurd rfl hkeys
  | cons first rest ih =>
      cases rest with
      | nil => exact List.cons_ne_nil _ _
      | cons key rest =>
          rw [shownKeys]
          split_ifs
          · exact ih (List.cons_ne_nil _ _)
          · exact List.cons_ne_nil _ _

theorem mem_of_mem_shownKeys (h : key ∈ shownKeys keys) : key ∈ keys := by
  induction keys with
  | nil => exact h
  | cons first rest ih =>
      cases rest with
      | nil => exact h
      | cons second rest =>
          rw [shownKeys] at h
          split_ifs at h
          · exact List.mem_cons_of_mem _ (ih h)
          · exact h

/-- Keys are shown as they are if the first is not empty, or the only one. -/
theorem shownKeys_eq_self (h : keys.head? = some "" → keys.length = 1) : shownKeys keys = keys := by
  cases keys with
  | nil => rfl
  | cons first rest =>
      cases rest with
      | nil => rfl
      | cons key rest =>
          rw [shownKeys, if_neg]
          rintro rfl
          simp at h

/-- Below a path that is not empty, every key adds a point and itself. -/
theorem foldl_childPath (hparts : parts ≠ []) (hjoin : joinSegments parts ≠ "")
    (keys : List String) :
    keys.foldl childPath (joinSegments parts) = joinSegments (parts ++ keys) := by
  -- the parts grow by a key at each step, and the path they make stays a path that is not empty
  induction keys generalizing parts with
  | nil => rw [List.append_nil, List.foldl_nil]
  | cons key keys ih =>
      have hchild : childPath (joinSegments parts) key = joinSegments (parts ++ [key]) := by
        rw [childPath, if_neg (by simpa using hjoin),
          joinSegments_append hparts (List.cons_ne_nil _ _), joinSegments_singleton]
      have hlonger : joinSegments (parts ++ [key]) ≠ "" := by
        rw [← hchild, childPath, if_neg (by simpa using hjoin)]
        simp
      rw [List.foldl_cons, hchild, ih (List.append_ne_nil_of_left_ne_nil hparts _) hlonger,
        List.append_assoc, List.singleton_append]

/-- The path of an entry joins the keys that are shown. -/
theorem pathOfKeys_eq (keys : List String) : pathOfKeys keys = joinSegments (shownKeys keys) := by
  induction keys with
  | nil => simp [pathOfKeys, shownKeys]
  | cons first rest ih =>
      cases rest with
      | nil => simp [pathOfKeys, shownKeys]
      | cons key rest =>
          rw [shownKeys]
          split_ifs with hfirst
          · -- after an empty key the path is still empty, so the rest is joined as at the root
            subst hfirst
            rw [← ih, pathOfKeys, pathOfKeys, List.foldl_cons, childPath_empty]
          · have hjoin : joinSegments [first] ≠ "" := by simpa using hfirst
            have hbelow := foldl_childPath (List.cons_ne_nil first []) hjoin (key :: rest)
            rwa [joinSegments_singleton] at hbelow

end

/-! ## Places and their paths -/

namespace Place

/-- The path that the value at a place is given. -/
def path (place : Place) : String :=
  match place.member with
  | none => pathOfKeys place.keys ++ ".value"
  | some key => pathOfKeys place.keys ++ ".value." ++ key

/-- The keys that lead to a value, as far as its path shows them. -/
def shown (place : Place) : List String := shownKeys place.keys ++ "value" :: place.member.toList

variable {place place' : Place}

theorem path_eq (hkeys : place.keys ≠ []) : place.path = joinSegments place.shown := by
  have hshown : shownKeys place.keys ≠ [] := shownKeys_ne_nil hkeys
  unfold path shown
  rw [pathOfKeys_eq]
  cases place.member with
  | none => exact (joinSegments_value hshown).symm
  | some key => exact (joinSegments_member hshown).symm

/-- Places without points in their keys have the same path if the same keys are shown. -/
theorem path_eq_path_iff (hkeys : place.keys ≠ []) (hkeys' : place'.keys ≠ [])
    (hpoints : ∀ part ∈ place.shown, '.' ∉ part.toList)
    (hpoints' : ∀ part ∈ place'.shown, '.' ∉ part.toList) :
    place.path = place'.path ↔ place.shown = place'.shown := by
  have hne : ∀ place : Place, place.shown ≠ [] := fun place =>
    List.append_ne_nil_of_right_ne_nil _ (List.cons_ne_nil _ _)
  rw [path_eq hkeys, path_eq hkeys']
  constructor
  · intro h
    rw [← segments_joinSegments (hne place) hpoints, h, segments_joinSegments (hne place') hpoints']
  · exact congrArg joinSegments

end Place

/-- The places of the values of the token that keys lead to. -/
def Token.places (keys : List String) (t : Token) : List Place :=
  match t.value with
  | .scalar _ => [⟨keys, none⟩]
  | .composite members => members.map fun member => ⟨keys, some member.1⟩

namespace TokenTree

/-- The places of the values of the group that keys lead to, in document order. -/
def places (parents : List String) : TokenTree → List Place
  | nil => []
  | group key inner rest => inner.places (parents ++ [key]) ++ rest.places parents
  | token key t rest => t.places (parents ++ [key]) ++ rest.places parents

end TokenTree

theorem Token.map_path_values (keys : List String) (t : Token) :
    ((t.values (pathOfKeys keys)).map fun value => (value.path, value.member)) =
      (t.places keys).map fun place => (place.path, place.member) := by
  unfold values places
  cases t.value with
  | scalar text => rfl
  | composite members =>
      rw [List.map_map, List.map_map]
      rfl

theorem Token.keys_of_mem_places {keys : List String} {t : Token} {place : Place}
    (h : place ∈ t.places keys) : place.keys = keys := by
  unfold places at h
  cases hvalue : t.value with
  | scalar text =>
      rw [hvalue] at h
      rw [List.mem_singleton.mp h]
  | composite members =>
      rw [hvalue] at h
      obtain ⟨member, -, rfl⟩ := List.mem_map.mp h
      rfl

theorem Token.nodup_segments {keys : List String} {t : Token} (hproper : t.value.IsProper) :
    ((t.places keys).map Place.segments).Nodup := by
  unfold places
  cases hvalue : t.value with
  | scalar text => exact List.nodup_singleton _
  | composite members =>
      rw [hvalue] at hproper
      have hinjective : Function.Injective fun key => keys ++ ["value", key] := by
        intro key key' h
        simpa using h
      have hmap := List.Nodup.map hinjective hproper
      rwa [List.map_map] at hmap ⊢

namespace TokenTree

variable {tree : TokenTree} {parents : List String} {place : Place} {q : String → Bool}

/-- The values of a tree and their places correspond one to one. -/
theorem map_path_values (tree : TokenTree) (parents : List String) :
    ((tree.values (pathOfKeys parents)).map fun value => (value.path, value.member)) =
      (tree.places parents).map fun place => (place.path, place.member) := by
  induction tree generalizing parents with
  | nil => rfl
  | group key inner rest ihInner ihRest =>
      rw [values, places, List.map_append, List.map_append, ← pathOfKeys_concat, ihInner, ihRest]
  | token key t rest ih =>
      rw [values, places, List.map_append, List.map_append, ← pathOfKeys_concat,
        Token.map_path_values, ih]

/-- A place starts with the key of an entry, and ends there if the entry is a token. -/
theorem exists_entry_of_mem_places (h : place ∈ tree.places parents) :
    ∃ key node more, (key, node) ∈ tree.entries ∧ place.keys = parents ++ key :: more ∧
      ((∃ inner, node = .group inner) ∨ more = []) := by
  induction tree generalizing parents with
  | nil => cases h
  | group key inner rest ihInner ihRest =>
      rcases List.mem_append.mp h with h | h
      · obtain ⟨key', -, more, -, hkeys, -⟩ := ihInner h
        refine ⟨key, .group inner, key' :: more, List.mem_cons_self, ?_, Or.inl ⟨inner, rfl⟩⟩
        rw [hkeys, List.append_assoc, List.singleton_append]
      · obtain ⟨key', node, more, hentry, hplace⟩ := ihRest h
        exact ⟨key', node, more, List.mem_cons_of_mem _ hentry, hplace⟩
  | token key t rest ih =>
      rcases List.mem_append.mp h with h | h
      · exact ⟨key, .token t, [], List.mem_cons_self, Token.keys_of_mem_places h, Or.inr rfl⟩
      · obtain ⟨key', node, more, hentry, hplace⟩ := ih h
        exact ⟨key', node, more, List.mem_cons_of_mem _ hentry, hplace⟩

theorem exists_key_of_mem_places (h : place ∈ tree.places parents) :
    ∃ key ∈ tree.keys, ∃ more, place.keys = parents ++ key :: more := by
  obtain ⟨key, node, more, hentry, hkeys, -⟩ := exists_entry_of_mem_places h
  exact ⟨key, List.mem_map_of_mem hentry, more, hkeys⟩

theorem keys_ne_nil_of_mem_places (h : place ∈ tree.places parents) : place.keys ≠ [] := by
  obtain ⟨key, -, more, hkeys⟩ := exists_key_of_mem_places h
  rw [hkeys]
  exact List.append_ne_nil_of_right_ne_nil _ (List.cons_ne_nil _ _)

/-- Below different keys there are different places. -/
theorem disjoint_segments {key : String} {entry : List Place}
    (hentry : ∀ place ∈ entry, ∃ more, place.keys = parents ++ key :: more)
    (hkey : key ∉ tree.keys) :
    (entry.map Place.segments).Disjoint ((tree.places parents).map Place.segments) := by
  intro segments hin hrest
  obtain ⟨place, hplace, rfl⟩ := List.mem_map.mp hin
  obtain ⟨place', hplace', hsame⟩ := List.mem_map.mp hrest
  obtain ⟨more, hkeys⟩ := hentry place hplace
  obtain ⟨key', hkey', more', hkeys'⟩ := exists_key_of_mem_places hplace'
  rw [Place.segments, Place.segments, hkeys, hkeys', List.append_assoc, List.append_assoc,
    List.append_cancel_left_eq, List.cons_append, List.cons_append, List.cons.injEq] at hsame
  rw [hsame.1] at hkey'
  exact hkey hkey'

/-- In a tree without repeated keys no two values are led to by the same keys. -/
theorem nodup_segments (hproper : tree.IsProper) (parents : List String) :
    ((tree.places parents).map Place.segments).Nodup := by
  -- an entry has no two places alike by induction, and shares none with those after it
  induction hproper generalizing parents with
  | nil => exact List.nodup_nil
  | @group key inner rest hkey hinner hrest ihInner ihRest =>
      rw [places, List.map_append]
      refine (ihInner _).append (ihRest _) (disjoint_segments (fun place h => ?_) hkey)
      obtain ⟨key', -, more, hkeys⟩ := exists_key_of_mem_places h
      exact ⟨key' :: more, by rw [hkeys, List.append_assoc, List.singleton_append]⟩
  | @token key t rest hkey htoken hrest ih =>
      rw [places, List.map_append]
      refine (Token.nodup_segments htoken).append (ih _)
        (disjoint_segments (fun place h => ?_) hkey)
      exact ⟨[], Token.keys_of_mem_places h⟩

end TokenTree

/-! ## Places below one another -/

/-- A scalar token has one place only. -/
theorem Token.eq_of_mem_places {keys : List String} {t : Token} {place place' : Place}
    (h : place ∈ t.places keys) (h' : place' ∈ t.places keys) (hscalar : place.member = none) :
    place' = place := by
  unfold places at h h'
  cases hvalue : t.value with
  | scalar text =>
      rw [hvalue] at h h'
      rw [List.mem_singleton.mp h, List.mem_singleton.mp h']
  | composite members =>
      rw [hvalue] at h
      obtain ⟨member, -, rfl⟩ := List.mem_map.mp h
      cases hscalar

/-- Where keys go on from others, they begin with the same entry. -/
theorem Place.key_eq_of_isPrefix {place place' : Place} {parents more more' : List String}
    {key key' : String} (hkeys : place.keys = parents ++ key :: more)
    (hkeys' : place'.keys = parents ++ key' :: more') (hfront : place.keys <+: place'.keys) :
    key = key' := by
  rw [hkeys, hkeys', List.prefix_append_right_inj, List.cons_prefix_cons] at hfront
  exact hfront.1

namespace TokenTree

variable {tree : TokenTree} {parents : List String} {place place' : Place}

/-- No value stands below a token: keys that go on from those of a token lead to the same
token. -/
theorem keys_eq_of_isPrefix (hproper : tree.IsProper) (h : place ∈ tree.places parents)
    (h' : place' ∈ tree.places parents) (hfront : place.keys <+: place'.keys) :
    place.keys = place'.keys ∧ (place.member = none → place' = place) := by
  -- both stand below the same entry, as its key does not occur again
  induction hproper generalizing parents with
  | nil => cases h
  | @group key inner rest hkey hinner hrest ihInner ihRest =>
      have hbelow : ∀ {place}, place ∈ inner.places (parents ++ [key]) →
          ∃ more, place.keys = parents ++ key :: more := by
        intro place hplace
        obtain ⟨key', -, more, hkeys⟩ := exists_key_of_mem_places hplace
        exact ⟨key' :: more, by rw [hkeys, List.append_assoc, List.singleton_append]⟩
      rcases List.mem_append.mp h with h | h
      · rcases List.mem_append.mp h' with h' | h'
        · exact ihInner h h'
        · obtain ⟨more, hkeys⟩ := hbelow h
          obtain ⟨key', hkey', more', hkeys'⟩ := exists_key_of_mem_places h'
          rw [← Place.key_eq_of_isPrefix hkeys hkeys' hfront] at hkey'
          exact absurd hkey' hkey
      · rcases List.mem_append.mp h' with h' | h'
        · obtain ⟨more', hkeys'⟩ := hbelow h'
          obtain ⟨key', hkey', more, hkeys⟩ := exists_key_of_mem_places h
          rw [Place.key_eq_of_isPrefix hkeys hkeys' hfront] at hkey'
          exact absurd hkey' hkey
        · exact ihRest h h'
  | @token key t rest hkey htoken hrest ih =>
      rcases List.mem_append.mp h with h | h
      · have hkeys := Token.keys_of_mem_places h
        rcases List.mem_append.mp h' with h' | h'
        · rw [hkeys, Token.keys_of_mem_places h']
          exact ⟨rfl, Token.eq_of_mem_places h h'⟩
        · obtain ⟨key', hkey', more', hkeys'⟩ := exists_key_of_mem_places h'
          rw [← Place.key_eq_of_isPrefix hkeys hkeys' hfront] at hkey'
          exact absurd hkey' hkey
      · rcases List.mem_append.mp h' with h' | h'
        · have hkeys' := Token.keys_of_mem_places h'
          obtain ⟨key', hkey', more, hkeys⟩ := exists_key_of_mem_places h
          rw [Place.key_eq_of_isPrefix hkeys hkeys' hfront] at hkey'
          exact absurd hkey' hkey
        · exact ih h h'

end TokenTree

theorem Token.forall_mem_of_mem_places {keys : List String} {t : Token} {place : Place}
    {q : String → Bool} (hkeys : t.value.allKeys q = true) (h : place ∈ t.places keys) :
    ∀ key ∈ place.member, q key = true := by
  unfold places at h
  cases hvalue : t.value with
  | scalar text =>
      rw [hvalue] at h
      rw [List.mem_singleton.mp h]
      rintro key ⟨⟩
  | composite members =>
      rw [hvalue] at h hkeys
      obtain ⟨member, hmember, rfl⟩ := List.mem_map.mp h
      rintro key ⟨⟩
      exact List.all_eq_true.mp hkeys member hmember

namespace TokenTree

variable {tree : TokenTree} {parents : List String} {place : Place} {q : String → Bool}

/-- What holds of all keys of a tree holds of those of its places. -/
theorem forall_mem_of_mem_places (hkeys : tree.allKeys q = true)
    (hparents : ∀ key ∈ parents, q key = true) (h : place ∈ tree.places parents) :
    (∀ key ∈ place.keys, q key = true) ∧ ∀ key ∈ place.member, q key = true := by
  have hlonger : ∀ key, q key = true → ∀ k ∈ parents ++ [key], q k = true := fun key hkey =>
    List.forall_mem_append.mpr ⟨hparents, List.forall_mem_singleton.mpr hkey⟩
  induction tree generalizing parents with
  | nil => cases h
  | group key inner rest ihInner ihRest =>
      simp only [allKeys, Bool.and_eq_true] at hkeys
      rcases List.mem_append.mp h with h | h
      · have hinner := hlonger key hkeys.1.1
        exact ihInner hkeys.1.2 hinner h fun key hkey =>
          List.forall_mem_append.mpr ⟨hinner, List.forall_mem_singleton.mpr hkey⟩
      · exact ihRest hkeys.2 hparents h hlonger
  | token key t rest ih =>
      simp only [allKeys, Bool.and_eq_true] at hkeys
      rcases List.mem_append.mp h with h | h
      · rw [Token.keys_of_mem_places h]
        exact ⟨hlonger key hkeys.1.1, Token.forall_mem_of_mem_places hkeys.1.2 h⟩
      · exact ih hkeys.2 hparents h hlonger

end TokenTree

/-! ## Paths of values -/

/-- A key without points. -/
def isPointFree (key : String) : Bool := !key.toList.contains '.'

theorem isPointFree_iff {key : String} : isPointFree key = true ↔ '.' ∉ key.toList := by
  simp [isPointFree]

namespace TokenTree

variable {tree : TokenTree} {place place' : Place}

theorem forall_mem_shown (hkeys : tree.allKeys isPointFree = true)
    (h : place ∈ tree.places []) : ∀ part ∈ place.shown, '.' ∉ part.toList := by
  obtain ⟨hplace, hmember⟩ := forall_mem_of_mem_places hkeys (List.forall_mem_nil _) h
  intro part hpart
  rw [← isPointFree_iff]
  rcases List.mem_append.mp hpart with hpart | hpart
  · exact hplace part (mem_of_mem_shownKeys hpart)
  · rcases List.mem_cons.mp hpart with rfl | hpart
    · decide
    · exact hmember part (Option.mem_toList.mp hpart)

/-- Without a group that has the empty key at the root, all keys are shown. -/
theorem shown_eq_segments (hroot : ∀ inner, ("", TokenNode.group inner) ∉ tree.entries)
    (h : place ∈ tree.places []) : place.shown = place.segments := by
  obtain ⟨key, node, more, hentry, hkeys, hnode⟩ := exists_entry_of_mem_places h
  rw [List.nil_append] at hkeys
  rw [Place.shown, Place.segments, shownKeys_eq_self]
  intro hempty
  rw [hkeys, List.head?_cons, Option.some.injEq] at hempty
  subst hempty
  -- the entry with the empty key is no group, so no other key comes behind it
  rcases hnode with ⟨inner, rfl⟩ | rfl
  · exact absurd hentry (hroot inner)
  · rw [hkeys]
    rfl

end TokenTree

/-- **Values have paths of their own, except behind an empty key.** Take the expressions of the
tree of a document without repeated keys, none of whose keys has a point. Their paths are
those of the places of the values, in order, and no two places are the same. The paths are
pairwise distinct exactly if no two places show the same keys. That is so unless a group
stands under the empty key at the root. -/
theorem flatten_paths_nodup {document : Json} {tree : TokenTree}
    {expressions : List TokenExpression} (hdocument : document.IsProper)
    (htree : (TokenTree.ofJson document).result = .ok tree)
    (hkeys : tree.allKeys isPointFree = true)
    (hflatten : (tree.flatten "").result = .ok expressions) :
    expressions.map TokenExpression.path = (tree.places []).map Place.path ∧
    (tree.places []).Nodup ∧
    ((expressions.map TokenExpression.path).Nodup ↔
      ∀ place ∈ tree.places [], ∀ place' ∈ tree.places [],
        place.shown = place'.shown → place = place') ∧
    ((∀ inner, ("", TokenNode.group inner) ∉ tree.entries) →
      (expressions.map TokenExpression.path).Nodup) := by
  have hproper := TokenTree.isProper_of_ofJson hdocument htree
  obtain ⟨-, rfl⟩ := TokenTree.flatten_eq_ok_iff.mp hflatten
  have hpaths : ((tree.values "").map PlacedValue.expression).map TokenExpression.path =
      (tree.places []).map Place.path := by
    have hboth := congrArg (List.map Prod.fst) (tree.map_path_values [])
    rw [List.map_map, List.map_map] at hboth
    rw [List.map_map]
    exact hboth
  have hsegments := TokenTree.nodup_segments hproper []
  have hplaces : (tree.places []).Nodup := .of_map _ hsegments
  have hiff : ((tree.places []).map Place.path).Nodup ↔
      ∀ place ∈ tree.places [], ∀ place' ∈ tree.places [],
        place.shown = place'.shown → place = place' := by
    rw [List.nodup_map_iff_inj_on hplaces]
    refine forall₂_congr fun place h => forall₂_congr fun place' h' => ?_
    rw [Place.path_eq_path_iff (TokenTree.keys_ne_nil_of_mem_places h)
      (TokenTree.keys_ne_nil_of_mem_places h') (TokenTree.forall_mem_shown hkeys h)
      (TokenTree.forall_mem_shown hkeys h')]
  rw [hpaths]
  refine ⟨rfl, hplaces, hiff, fun hroot => hiff.mpr fun place h place' h' hshown => ?_⟩
  rw [TokenTree.shown_eq_segments hroot h, TokenTree.shown_eq_segments hroot h'] at hshown
  exact (List.nodup_map_iff_inj_on hplaces).mp hsegments place h place' h' hshown

/-- Empty keys that stand in front of no other key at the root, and keys named `value`. -/
def emptyKeysDocument : Json :=
  .object [
    ("", .object [("type", .text "size"), ("value", .text "1px")]),
    ("text", .object [
      ("", .object [
        ("", .object [("type", .text "size"), ("value", .text "{text.value.value.}")])]),
      ("value", .object [("type", .text "font"),
        ("value", .object [("", .text "2px"), ("value", .text "bold")])])]),
    ("value", .object [("value", .object [("type", .text "size"), ("value", .text "3px")])])]

/-- The tree of `emptyKeysDocument`. -/
def emptyKeysTree : TokenTree :=
  .token "" ⟨.scalar "1px", "size"⟩
    (.group "text"
      (.group "" (.token "" ⟨.scalar "{text.value.value.}", "size"⟩ .nil)
        (.token "value" ⟨.composite [("", "2px"), ("value", "bold")], "font"⟩ .nil))
      (.group "value" (.token "value" ⟨.scalar "3px", "size"⟩ .nil) .nil))

theorem flatten_paths_nodup_emptyKeys :
    emptyKeysDocument.IsProper ∧
      (TokenTree.ofJson emptyKeysDocument).result = .ok emptyKeysTree ∧
      emptyKeysTree.allKeys isPointFree = true ∧
      (∀ inner, ("", TokenNode.group inner) ∉ emptyKeysTree.entries) ∧
      ∃ expressions, (emptyKeysTree.flatten "").result = .ok expressions ∧
        expressions.map TokenExpression.path =
          [".value", "text...value", "text.value.value.", "text.value.value.value",
            "value.value.value"] ∧
        (expressions.map TokenExpression.path).Nodup := by
  have hdocument : emptyKeysDocument.IsProper := by simp [emptyKeysDocument, HasDistinctKeys]
  have htree : (TokenTree.ofJson emptyKeysDocument).result = .ok emptyKeysTree := rfl
  have hkeys : emptyKeysTree.allKeys isPointFree = true := by decide
  have hroot : ∀ inner, ("", TokenNode.group inner) ∉ emptyKeysTree.entries := by
    simp [emptyKeysTree, TokenTree.entries]
  have hflatten : (emptyKeysTree.flatten "").result = .ok _ :=
    TokenTree.flatten_eq_ok_iff.mpr ⟨by decide, rfl⟩
  obtain ⟨hpaths, -, -, hnodup⟩ := flatten_paths_nodup hdocument htree hkeys hflatten
  exact ⟨hdocument, htree, hkeys, hroot, _, hflatten, hpaths.trans (by decide), hnodup hroot⟩

/-- A token at the root, and one of the same key in the group with the empty key. -/
def hiddenKeyDocument : Json :=
  .object [
    ("", .object [("a", .object [("type", .text "size"), ("value", .text "1px")])]),
    ("a", .object [("type", .text "size"), ("value", .text "2px")])]

/-- The tree of `hiddenKeyDocument`. -/
def hiddenKeyTree : TokenTree :=
  .group "" (.token "a" ⟨.scalar "1px", "size"⟩ .nil) (.token "a" ⟨.scalar "2px", "size"⟩ .nil)

/-- Behind an empty key at the root, two values have one path. -/
theorem flatten_hiddenKey_repeats_path :
    hiddenKeyDocument.IsProper ∧
      (TokenTree.ofJson hiddenKeyDocument).result = .ok hiddenKeyTree ∧
      hiddenKeyTree.allKeys isPointFree = true ∧
      ∃ expressions, (hiddenKeyTree.flatten "").result = .ok expressions ∧
        expressions.map TokenExpression.path = ["a.value", "a.value"] := by
  have hflatten : (hiddenKeyTree.flatten "").result = .ok _ :=
    TokenTree.flatten_eq_ok_iff.mpr ⟨by decide, rfl⟩
  exact ⟨by simp [hiddenKeyDocument, HasDistinctKeys], rfl, by decide, _, hflatten, by decide⟩

end DesignTokens
