import DesignTokens.Proofs.Json.Reading
import DesignTokens.Tree.OfJson

set_option autoImplicit false

/-! # Trees of documents

Token trees may repeat keys, but the trees of documents do not: no group has a key twice,
and no composite value a member (`isProper_of_ofJson`). Whatever depends on the first entry
of a key, such as `TokenTree.leaf?`, then depends on the only one.
-/

namespace DesignTokens

/-! ## Documents -/

/-- No object in a document has a key twice. -/
inductive Json.IsProper : Json → Prop
  | null : IsProper .null
  | bool (value : Bool) : IsProper (.bool value)
  | number (value : JsonNumber) : IsProper (.number value)
  | text (value : String) : IsProper (.text value)
  | array {items : List Json} (hitems : ∀ item ∈ items, IsProper item) : IsProper (.array items)
  | object {members : List (String × Json)} (hkeys : HasDistinctKeys members)
      (hmembers : ∀ member ∈ members, IsProper member.2) : IsProper (.object members)

theorem Json.IsRead.isProper {document : Json} (h : document.IsRead) : document.IsProper := by
  induction h with
  | null => exact .null
  | bool value => exact .bool value
  | number => exact .number _
  | text value => exact .text value
  | array hitems ih => exact .array ih
  | object hkeys hmembers ih => exact .object hkeys ih

attribute [simp] Json.IsProper.null Json.IsProper.bool Json.IsProper.number Json.IsProper.text

@[simp] theorem Json.isProper_object_iff {members : List (String × Json)} :
    (Json.object members).IsProper ↔
      HasDistinctKeys members ∧ ∀ member ∈ members, member.2.IsProper :=
  ⟨fun | .object hkeys hmembers => ⟨hkeys, hmembers⟩,
    fun ⟨hkeys, hmembers⟩ => .object hkeys hmembers⟩

/-- The value of a key of an object without repeated keys. -/
theorem Json.IsProper.of_lookup {members : List (String × Json)} {key : String} {value : Json}
    (h : (Json.object members).IsProper) (hvalue : members.lookup key = some value) :
    value.IsProper := by
  obtain ⟨hkeys, hmembers⟩ := Json.isProper_object_iff.mp h
  exact hmembers _ ((lookup_eq_some_iff_mem hkeys).mp hvalue)

/-! ## Trees -/

/-- A composite value has no member twice. -/
def RawValue.IsProper : RawValue → Prop
  | .scalar _ => True
  | .composite members => HasDistinctKeys members

namespace TokenTree

/-- The keys of the entries, in order. -/
def keys (tree : TokenTree) : List String := tree.entries.map Prod.fst

/-- No group in a tree has a key twice, and no composite value a member. -/
inductive IsProper : TokenTree → Prop
  | nil : IsProper nil
  | group {key : String} {inner rest : TokenTree} (hkey : key ∉ rest.keys)
      (hinner : IsProper inner) (hrest : IsProper rest) : IsProper (group key inner rest)
  | token {key : String} {t : Token} {rest : TokenTree} (hkey : key ∉ rest.keys)
      (htoken : t.value.IsProper) (hrest : IsProper rest) : IsProper (token key t rest)

end TokenTree

/-- An entry without repeated keys below it. -/
def TokenNode.IsProper : TokenNode → Prop
  | .group entries => entries.IsProper
  | .token t => t.value.IsProper

namespace TokenTree

variable {key : String} {node : TokenNode} {tree rest : TokenTree}

@[simp] theorem keys_cons : (cons key node rest).keys = key :: rest.keys := by
  simp [keys]

theorem isProper_cons :
    (cons key node rest).IsProper ↔ key ∉ rest.keys ∧ node.IsProper ∧ rest.IsProper := by
  constructor
  · intro h
    cases node with
    | group inner =>
        cases h with
        | group hkey hinner hrest => exact ⟨hkey, hinner, hrest⟩
    | token t =>
        cases h with
        | token hkey htoken hrest => exact ⟨hkey, htoken, hrest⟩
  · rintro ⟨hkey, hnode, hrest⟩
    cases node with
    | group inner => exact .group hkey hnode hrest
    | token t => exact .token hkey hnode hrest

theorem IsProper.hasDistinctKeys (h : tree.IsProper) : HasDistinctKeys tree.entries := by
  induction h with
  | nil => exact List.nodup_nil
  | group hkey _ _ _ ih => exact hasDistinctKeys_cons.mpr ⟨hkey, ih⟩
  | token hkey _ _ ih => exact hasDistinctKeys_cons.mpr ⟨hkey, ih⟩

end TokenTree

/-! ## From documents to trees -/

theorem Token.key_of_memberOfJson {path : String} {member : String × Json}
    {read : String × String} (h : memberOfJson path member = .ok read) : read.1 = member.1 := by
  unfold memberOfJson at h
  split at h
  · cases h
    rfl
  · cases h

/-- The members of a composite value keep their keys. -/
theorem Token.keys_of_mapM {path : String} {members : List (String × Json)}
    {read : List (String × String)} (h : members.mapM (memberOfJson path) = .ok read) :
    read.map Prod.fst = members.map Prod.fst := by
  induction members generalizing read with
  | nil =>
      cases h
      rfl
  | cons member members ih =>
      rw [List.mapM_cons] at h
      obtain ⟨first, hmember, h⟩ := except_bind_eq_ok_iff.mp h
      obtain ⟨others, hrest, h⟩ := except_bind_eq_ok_iff.mp h
      cases h
      rw [List.map_cons, List.map_cons, ih hrest, key_of_memberOfJson hmember]

theorem Token.isProper_of_valueOfJson {path : String} {content : Option Json} {value : RawValue}
    (hproper : ∀ json, content = some json → json.IsProper)
    (h : valueOfJson path content = .ok value) : value.IsProper := by
  unfold valueOfJson at h
  split at h
  · cases h
  · cases h
  · rename_i members
    obtain ⟨read, hmembers, h⟩ := except_bind_eq_ok_iff.mp h
    cases h
    cases hproper _ rfl with
    | object hkeys _ =>
        show (read.map Prod.fst).Nodup
        rw [keys_of_mapM hmembers]
        exact hkeys
  · split at h
    · cases h
      exact trivial
    · cases h

theorem Token.isProper_of_ofMembers {path tokenType : String} {members : List (String × Json)}
    {t : Token} (hproper : (Json.object members).IsProper)
    (h : ofMembers path tokenType members = .ok t) : t.value.IsProper := by
  unfold ofMembers at h
  obtain ⟨value, hvalue, h⟩ := except_bind_eq_ok_iff.mp h
  cases h
  exact isProper_of_valueOfJson (fun json hjson => hproper.of_lookup hjson) hvalue

namespace TokenTree

/-- Members become entries of their keys, if they are not skipped. -/
theorem isProper_of_ofMembers {members : List (String × Json)} {parent : String}
    {tree : TokenTree} (hkeys : HasDistinctKeys members)
    (hnodes : ∀ member ∈ members, ∀ path node,
      (nodeOfJson path member.2).result = .ok (some node) → node.IsProper)
    (h : (ofMembers parent members).result = .ok tree) :
    tree.IsProper ∧ ∀ key ∈ tree.keys, key ∈ members.map Prod.fst := by
  induction members generalizing tree with
  | nil =>
      rw [ofMembers] at h
      cases h
      exact ⟨.nil, fun key hkey => hkey⟩
  | cons member members ih =>
      obtain ⟨key, value⟩ := member
      rw [ofMembers] at h
      obtain ⟨entry, hentry, h⟩ := Traced.result_bind_eq_ok.mp h
      obtain ⟨rest, hrest, h⟩ := Traced.result_bind_eq_ok.mp h
      obtain ⟨hnew, hkeys⟩ := hasDistinctKeys_cons.mp hkeys
      obtain ⟨hproper, hsub⟩ :=
        ih hkeys (fun m hm => hnodes m (List.mem_cons_of_mem _ hm)) hrest
      have hmem : ∀ k ∈ rest.keys, k ∈ ((key, value) :: members).map Prod.fst := fun k hk =>
        List.mem_cons_of_mem _ (hsub k hk)
      cases entry with
      | none =>
          cases h
          exact ⟨hproper, hmem⟩
      | some node =>
          cases h
          have hnode := hnodes _ List.mem_cons_self _ node hentry
          refine ⟨isProper_cons.mpr ⟨fun hk => hnew (hsub key hk), hnode, hproper⟩, ?_⟩
          intro k hk
          rw [keys_cons] at hk
          rcases List.mem_cons.mp hk with rfl | hk
          · exact List.mem_cons_self
          · exact hmem k hk

theorem isProper_of_nodeOfJson {value : Json} (hproper : value.IsProper) :
    ∀ path node, (nodeOfJson path value).result = .ok (some node) → node.IsProper := by
  induction hproper with
  | @object members hkeys hmembers ih =>
      intro path node h
      rw [nodeOfJson] at h
      split at h
      · obtain ⟨t, ht, h⟩ := Traced.result_bind_eq_ok.mp h
        cases h
        exact Token.isProper_of_ofMembers (.object hkeys hmembers) ht
      · obtain ⟨entries, hentries, h⟩ := Traced.result_bind_eq_ok.mp h
        cases h
        exact (isProper_of_ofMembers hkeys ih hentries).1
  | _ =>
      -- what is no object is skipped
      intro path node h
      rw [nodeOfJson] at h
      · obtain ⟨_, _, h⟩ := Traced.result_bind_eq_ok.mp h
        cases h
      · simp

/-- The tree of a document has no key twice. -/
theorem isProper_of_ofJson {document : Json} {tree : TokenTree} (hproper : document.IsProper)
    (h : (ofJson document).result = .ok tree) : tree.IsProper := by
  cases hproper with
  | object hkeys hmembers =>
      refine (isProper_of_ofMembers hkeys (fun member hmember => ?_) h).1
      exact isProper_of_nodeOfJson (hmembers member hmember)
  | _ => cases h

/-- The tree of a text has no key twice. -/
theorem isProper_of_ofText {text : String} {tree : TokenTree}
    (h : (ofText text).result = .ok tree) : tree.IsProper := by
  unfold ofText at h
  split at h
  · rename_i document hdocument
    exact isProper_of_ofJson (Json.isRead_of_parse? hdocument).isProper h
  · cases h

end TokenTree

end DesignTokens
