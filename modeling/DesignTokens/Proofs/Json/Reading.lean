import DesignTokens.Json.Parser
import DesignTokens.Proofs.Lookup.Entries

set_option autoImplicit false

/-! # What reading a document gives

Every number of a document that was read is the number of a literal, and no object has a
key twice: a repeated key puts its value in the place of the first one. `Json.IsRead` says
so of a whole document. It is an invariant of scanning (`JsonToken.isRead_of_step?`) and of
the parser's frames (`JsonParser.isRead_of_step?`), and so holds of what `Json.parse?`
returns.
-/

namespace DesignTokens

/-- What every step of a fold that may fail preserves holds at its end. -/
theorem foldlM_preserves {α β : Type} {step : β → α → Option β} {P : β → Prop} {xs : List α}
    (hstep : ∀ b, P b → ∀ a ∈ xs, ∀ b', step b a = some b' → P b') {b b' : β} (hb : P b)
    (h : xs.foldlM step b = some b') : P b' := by
  induction xs generalizing b with
  | nil =>
      cases h
      exact hb
  | cons a xs ih =>
      rw [List.foldlM_cons] at h
      obtain ⟨next, hnext, hrest⟩ := Option.bind_eq_some_iff.mp h
      refine ih (fun b hb a ha => hstep b hb a (List.mem_cons_of_mem _ ha)) ?_ hrest
      exact hstep b hb a List.mem_cons_self next hnext

/-! ## Members -/

section

variable {members : List (String × Json)} {key : String} {value : Json}

theorem mem_putMember {member : String × Json} (h : member ∈ putMember members key value) :
    member = (key, value) ∨ member ∈ members := by
  induction members with
  | nil => exact Or.inl (List.mem_singleton.mp h)
  | cons first rest ih =>
      obtain ⟨other, old⟩ := first
      rw [putMember] at h
      split_ifs at h
      · rcases List.mem_cons.mp h with hmember | hmember
        · exact Or.inl hmember
        · exact Or.inr (List.mem_cons_of_mem _ hmember)
      · rcases List.mem_cons.mp h with hmember | hmember
        · exact Or.inr (by rw [hmember]; exact List.mem_cons_self)
        · rcases ih hmember with hnew | hold
          · exact Or.inl hnew
          · exact Or.inr (List.mem_cons_of_mem _ hold)

/-- A member takes the place of the one of its key. -/
theorem HasDistinctKeys.putMember (h : HasDistinctKeys members) :
    HasDistinctKeys (putMember members key value) := by
  induction members with
  | nil => exact List.nodup_singleton key
  | cons first rest ih =>
      obtain ⟨other, old⟩ := first
      obtain ⟨hnew, hrest⟩ := hasDistinctKeys_cons.mp h
      rw [DesignTokens.putMember]
      split_ifs with hkey
      · subst hkey
        exact hasDistinctKeys_cons.mpr ⟨hnew, hrest⟩
      · refine hasDistinctKeys_cons.mpr ⟨?_, ih hrest⟩
        intro hmem
        obtain ⟨member, hmember, hother⟩ := List.mem_map.mp hmem
        rcases mem_putMember hmember with rfl | hold
        · exact hkey hother.symm
        · exact hnew (List.mem_map.mpr ⟨member, hold, hother⟩)

end

/-! ## Documents -/

/-- A value as reading gives it: numbers are those of literals, and no object has a key
twice. -/
inductive Json.IsRead : Json → Prop
  | null : IsRead .null
  | bool (value : Bool) : IsRead (.bool value)
  | number {literal : List Char} {value : JsonNumber}
      (hliteral : JsonNumber.ofLiteral? literal = some value) : IsRead (.number value)
  | text (value : String) : IsRead (.text value)
  | array {items : List Json} (hitems : ∀ item ∈ items, IsRead item) : IsRead (.array items)
  | object {members : List (String × Json)} (hkeys : HasDistinctKeys members)
      (hmembers : ∀ member ∈ members, IsRead member.2) : IsRead (.object members)

/-- A value that stands somewhere in a document. -/
inductive Json.Holds : Json → Json → Prop
  | self (value : Json) : Holds value value
  | item {items : List Json} {item value : Json} (hitem : item ∈ items) (h : Holds item value) :
      Holds (.array items) value
  | member {members : List (String × Json)} {member : String × Json} {value : Json}
      (hmember : member ∈ members) (h : Holds member.2 value) : Holds (.object members) value

theorem Json.Holds.trans {document inner value : Json} (h : document.Holds inner)
    (hinner : inner.Holds value) : document.Holds value := by
  induction h with
  | self inner => exact hinner
  | item hitem h ih => exact .item hitem (ih hinner)
  | member hmember h ih => exact .member hmember (ih hinner)

/-- What stands in a document was read with it. -/
theorem Json.IsRead.of_holds {document value : Json} (hread : document.IsRead)
    (h : document.Holds value) : value.IsRead := by
  induction h with
  | self value => exact hread
  | item hitem h ih =>
      cases hread with
      | array hitems => exact ih (hitems _ hitem)
  | member hmember h ih =>
      cases hread with
      | object hkeys hmembers => exact ih (hmembers _ hmember)

/-! ## Scanning -/

namespace JsonToken

/-- A token whose value, if it is one, was read. -/
def IsRead : JsonToken → Prop
  | mark _ => True
  | text _ => True
  | plain value => value.IsRead

variable {scan scan' : Scan} {c : Char}

theorem isRead_of_wordOf? {word : String} {value : Json} (h : wordOf? word = some value) :
    value.IsRead := by
  unfold wordOf? at h
  split_ifs at h
  · cases h
    exact .null
  · cases h
    exact .bool true
  · cases h
    exact .bool false

theorem isRead_of_endPlain? {state : ScanState} {ended : List JsonToken}
    (h : endPlain? state = some ended) : ∀ token ∈ ended, token.IsRead := by
  cases state with
  | between =>
      cases h
      simp
  | inText state collected => cases h
  | inWord collected =>
      obtain ⟨value, hvalue, rfl⟩ := Option.map_eq_some_iff.mp h
      intro token htoken
      rw [List.mem_singleton.mp htoken]
      exact isRead_of_wordOf? hvalue
  | inNumber collected =>
      obtain ⟨value, hvalue, rfl⟩ := Option.map_eq_some_iff.mp h
      intro token htoken
      rw [List.mem_singleton.mp htoken]
      exact .number hvalue

/-- Between tokens only marks are complete at once. -/
theorem isRead_of_stepBetween? {tokens : List JsonToken} (htokens : ∀ token ∈ tokens, token.IsRead)
    (h : stepBetween? tokens c = some scan) : ∀ token ∈ scan.tokens, token.IsRead := by
  unfold stepBetween? at h
  split_ifs at h
  · cases h
    exact htokens
  · cases h
    exact htokens
  · cases h
    exact htokens
  · cases h
    exact htokens
  · obtain ⟨mark, -, rfl⟩ := Option.map_eq_some_iff.mp h
    intro token htoken
    rcases List.mem_cons.mp htoken with rfl | hold
    · exact trivial
    · exact htokens token hold

/-- A character ends at most one token, and that token was read. -/
theorem isRead_of_step? (htokens : ∀ token ∈ scan.tokens, token.IsRead)
    (h : step? scan c = some scan') : ∀ token ∈ scan'.tokens, token.IsRead := by
  have hended : ∀ {state ended}, endPlain? state = some ended →
      ∀ token ∈ ended ++ scan.tokens, token.IsRead := by
    intro state ended hend token htoken
    rcases List.mem_append.mp htoken with hnew | hold
    · exact isRead_of_endPlain? hend token hnew
    · exact htokens token hold
  unfold step? at h
  split at h
  · split_ifs at h
    · cases h
      intro token htoken
      rcases List.mem_cons.mp htoken with rfl | hold
      · exact trivial
      · exact htokens token hold
    · obtain ⟨state, -, rfl⟩ := Option.map_eq_some_iff.mp h
      exact htokens
  · obtain ⟨state, -, rfl⟩ := Option.map_eq_some_iff.mp h
    exact htokens
  · split_ifs at h
    · cases h
      exact htokens
    · obtain ⟨ended, hend, hnext⟩ := Option.bind_eq_some_iff.mp h
      exact isRead_of_stepBetween? (hended hend) hnext
  · split_ifs at h
    · cases h
      exact htokens
    · obtain ⟨ended, hend, hnext⟩ := Option.bind_eq_some_iff.mp h
      exact isRead_of_stepBetween? (hended hend) hnext
  · exact isRead_of_stepBetween? htokens h

theorem isRead_of_scan? {text : List Char} {tokens : List JsonToken}
    (h : scan? text = some tokens) : ∀ token ∈ tokens, token.IsRead := by
  unfold scan? at h
  obtain ⟨scan, hscan, hrest⟩ := Option.bind_eq_some_iff.mp h
  obtain ⟨ended, hend, htokens⟩ := Option.bind_eq_some_iff.mp hrest
  have hread : ∀ token ∈ scan.tokens, token.IsRead :=
    foldlM_preserves (P := fun scan => ∀ token ∈ scan.tokens, token.IsRead)
      (fun scan hscan c _ scan' hstep => isRead_of_step? hscan hstep) (by simp) hscan
  cases htokens
  intro token htoken
  rcases List.mem_append.mp (List.mem_reverse.mp htoken) with hnew | hold
  · exact isRead_of_endPlain? hend token hnew
  · exact hread token hold

end JsonToken

/-! ## Parsing -/

namespace JsonParser

/-- The values of an open array or object were read. -/
def Frame.IsRead : Frame → Prop
  | .array items => ∀ item ∈ items, item.IsRead
  | .object members => (Json.object members).IsRead
  | .member members _ => (Json.object members).IsRead

/-- Everything so far was read, the complete document as well. -/
structure State.IsRead (state : State) : Prop where
  frames : ∀ frame ∈ state.frames, frame.IsRead
  document : ∀ document, state.expected = .nothing document → document.IsRead

variable {frames : List Frame} {state : State}

theorem State.IsRead.of_frames {expected : Expected} (h : ∀ frame ∈ frames, frame.IsRead)
    (hexpected : ∀ document, expected ≠ .nothing document) : State.IsRead ⟨frames, expected⟩ where
  frames := h
  document document heq := absurd heq (hexpected document)

theorem isRead_of_place? (hframes : ∀ frame ∈ frames, frame.IsRead) {value : Json}
    (hvalue : value.IsRead) (h : place? frames value = some state) : state.IsRead := by
  match frames, hframes with
  | [], _ =>
      cases h
      refine ⟨by simp, ?_⟩
      rintro document ⟨⟩
      exact hvalue
  | .array items :: frames, hframes =>
      cases h
      obtain ⟨hitems, hrest⟩ := List.forall_mem_cons.mp hframes
      refine .of_frames (List.forall_mem_cons.mpr ⟨?_, hrest⟩) (by rintro document ⟨⟩)
      exact List.forall_mem_cons.mpr ⟨hvalue, hitems⟩
  | .member members key :: frames, hframes =>
      cases h
      obtain ⟨hobject, hrest⟩ := List.forall_mem_cons.mp hframes
      refine .of_frames (List.forall_mem_cons.mpr ⟨?_, hrest⟩) (by rintro document ⟨⟩)
      cases hobject with
      | object hkeys hmembers =>
          refine .object hkeys.putMember fun member hmember => ?_
          rcases mem_putMember hmember with rfl | hold
          · exact hvalue
          · exact hmembers member hold
  | .object members :: frames, _ => cases h

theorem isRead_of_open? (hframes : ∀ frame ∈ frames, frame.IsRead) {frame : Frame}
    (hframe : frame.IsRead) {expected : Expected}
    (hexpected : ∀ document, expected ≠ .nothing document)
    (h : open? frames frame expected = some state) : state.IsRead := by
  unfold open? at h
  split_ifs at h
  cases h
  exact .of_frames (List.forall_mem_cons.mpr ⟨hframe, hframes⟩) hexpected

theorem isRead_of_close? (hframes : ∀ frame ∈ frames, frame.IsRead) {mark : JsonMark}
    (h : close? frames mark = some state) : state.IsRead := by
  unfold close? at h
  split at h
  · obtain ⟨hitems, hrest⟩ := List.forall_mem_cons.mp hframes
    refine isRead_of_place? hrest (.array fun item hitem => ?_) h
    exact hitems item (List.mem_reverse.mp hitem)
  · obtain ⟨hobject, hrest⟩ := List.forall_mem_cons.mp hframes
    exact isRead_of_place? hrest hobject h
  · cases h

/-- One more token keeps everything read. -/
theorem isRead_of_step? {state' : State} {token : JsonToken} (hstate : state.IsRead)
    (htoken : token.IsRead) (h : step? state token = some state') : state'.IsRead := by
  have hframes := hstate.frames
  have hempty : (Frame.object []).IsRead := Json.IsRead.object List.nodup_nil (by simp)
  unfold step? at h
  split at h
  · exact isRead_of_place? hframes htoken h
  · exact isRead_of_place? hframes (.text _) h
  · exact isRead_of_open? hframes (by simp [Frame.IsRead]) (by rintro document ⟨⟩) h
  · exact isRead_of_open? hframes hempty (by rintro document ⟨⟩) h
  · exact isRead_of_close? hframes h
  · cases h
    exact .of_frames hframes (by rintro document ⟨⟩)
  · exact isRead_of_close? hframes h
  · split at h
    · rename_i hcase
      cases h
      rw [hcase] at hframes
      -- the frame waits for the value of a key, with the same members
      obtain ⟨hobject, hrest⟩ := List.forall_mem_cons.mp hframes
      exact .of_frames (List.forall_mem_cons.mpr ⟨hobject, hrest⟩) (by rintro document ⟨⟩)
    · cases h
  · split at h
    · rename_i hcase
      cases h
      rw [hcase] at hframes
      exact .of_frames hframes (by rintro document ⟨⟩)
    · rename_i hcase
      cases h
      rw [hcase] at hframes
      exact .of_frames hframes (by rintro document ⟨⟩)
    · cases h
  · exact isRead_of_close? hframes h
  · cases h

end JsonParser

/-- What `Json.parse?` returns was read from a text. -/
theorem Json.isRead_of_parse? {text : String} {document : Json}
    (h : Json.parse? text = some document) : document.IsRead := by
  unfold Json.parse? at h
  obtain ⟨tokens, htokens, hrest⟩ := Option.bind_eq_some_iff.mp h
  obtain ⟨state, hstate, hdocument⟩ := Option.bind_eq_some_iff.mp hrest
  have hstart : JsonParser.State.IsRead ⟨[], .value false⟩ :=
    .of_frames (by simp) (by rintro document ⟨⟩)
  have hread : state.IsRead :=
    foldlM_preserves (P := JsonParser.State.IsRead)
      (fun state hstate token htoken state' hstep =>
        JsonParser.isRead_of_step? hstate (JsonToken.isRead_of_scan? htokens token htoken) hstep)
      hstart hstate
  split at hdocument
  · rename_i hexpected
    cases hdocument
    exact hread.document _ hexpected
  · cases hdocument

end DesignTokens
