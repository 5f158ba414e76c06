import DesignTokens.Proofs.Stylesheet.Names
import DesignTokens.Proofs.Tree.Leaves

set_option autoImplicit false

/-! # Full paths as keys

A key finds every path that it is the front of, as texts: the path `a.value` is also the front
of `a.valueX.value`. The full path of a scalar token finds that token alone nevertheless
(`TokenSet.matching_path`). A path that goes on from it shows the keys of the token and goes
on behind a point, so it stands for a place below the token or above it, and there are no
values above or below a token (`TokenTree.keys_eq_of_isPrefix`).

What a full path then comes to is the value of the token, which the style sheet shows too, with
`px` behind a bare number (`valueFor_full_path`).
-/

namespace DesignTokens

/-! ## Paths that go on from a path -/

namespace TokenTree

variable {tree : TokenTree} {place place' : Place} {e : TokenExpression}

theorem pathOfKeys_of_isSegment (hkeys : tree.allKeys isSegment = true)
    (h : place ∈ tree.places []) : pathOfKeys place.keys = joinSegments place.keys := by
  obtain ⟨hplace, -⟩ := forall_mem_of_mem_places hkeys (List.forall_mem_nil _) h
  rw [pathOfKeys_eq, shownKeys_eq_self]
  intro hempty
  exact absurd rfl (isSegment_iff.mp (hplace "" (List.mem_of_mem_head? hempty))).1

theorem forall_mem_segments (hkeys : tree.allKeys isSegment = true)
    (h : place ∈ tree.places []) : ∀ part ∈ place.segments, '.' ∉ part.toList := by
  obtain ⟨hplace, hmember⟩ := forall_mem_of_mem_places hkeys (List.forall_mem_nil _) h
  intro part hpart
  rcases List.mem_append.mp hpart with hpart | hpart
  · exact (isSegment_iff.mp (hplace part hpart)).2
  · rcases List.mem_cons.mp hpart with rfl | hpart
    · decide
    · exact (isSegment_iff.mp (hmember part (Option.mem_toList.mp hpart))).2

/-- Where keys are segments, the path of a value joins all keys that lead to it. -/
theorem path_eq_of_isSegment (hkeys : tree.allKeys isSegment = true)
    (h : place ∈ tree.places []) : place.path = joinSegments place.segments := by
  have hne := keys_ne_nil_of_mem_places h
  unfold Place.path Place.segments
  rw [pathOfKeys_of_isSegment hkeys h]
  cases place.member with
  | none => exact (joinSegments_value hne).symm
  | some key => exact (joinSegments_member hne).symm

theorem segments_path (hkeys : tree.allKeys isSegment = true) (h : place ∈ tree.places []) :
    segments place.path = place.segments := by
  have hne : place.segments ≠ [] :=
    List.append_ne_nil_of_left_ne_nil (keys_ne_nil_of_mem_places h) _
  rw [path_eq_of_isSegment hkeys h, segments_joinSegments hne (forall_mem_segments hkeys h)]

/-- A path that goes on from the full path of a scalar token is that path. -/
theorem eq_of_path_isPrefix (hproper : tree.IsProper) (hkeys : tree.allKeys isSegment = true)
    (h : place ∈ tree.places []) (h' : place' ∈ tree.places []) (hscalar : place.member = none)
    (hfront : place.path.toList <+: place'.path.toList) : place' = place := by
  -- behind the keys of the token and a point comes the rest of the path
  obtain ⟨rest, hrest⟩ : ∃ rest, place'.path = joinSegments place.keys ++ "." ++ rest := by
    obtain ⟨after, hafter⟩ := hfront
    refine ⟨"value" ++ String.ofList after, ?_⟩
    rw [← String.toList_inj, ← hafter, Place.path, hscalar, pathOfKeys_of_isSegment hkeys h]
    simp
  have hpoints : ∀ key ∈ place.keys, '.' ∉ key.toList := fun key hkey =>
    forall_mem_segments hkeys h key (List.mem_append_left _ hkey)
  have hsegments : place.keys ++ segments rest = place'.segments := by
    rw [← segments_path hkeys h', hrest, segments_append,
      segments_joinSegments (keys_ne_nil_of_mem_places h) hpoints]
  have hkeysFront : place.keys <+: place'.segments := ⟨_, hsegments⟩
  have hkeysFront' : place'.keys <+: place'.segments := List.prefix_append _ _
  rcases List.prefix_or_prefix_of_prefix hkeysFront hkeysFront' with hbelow | habove
  · exact (keys_eq_of_isPrefix hproper h h' hbelow).2 hscalar
  · have hsame : place'.keys = place.keys := (keys_eq_of_isPrefix hproper h' h habove).1
    have hbelow : place.keys <+: place'.keys := hsame ▸ List.prefix_rfl
    exact (keys_eq_of_isPrefix hproper h h' hbelow).2 hscalar

end TokenTree

namespace TokenSet

variable {tree : TokenTree} {formatters : FormatterRegistry} {tokens : TokenSet}
  {place : Place} {e : TokenExpression} {key : String}

/-- The full path of a scalar token finds its expression and no other. -/
theorem matching_path (hproper : tree.IsProper) (hkeys : tree.allKeys isSegment = true)
    (hload : (load tree formatters).result = .ok tokens) (hmem : (place, e) ∈ tokens.placed)
    (hscalar : place.member = none) : tokens.matching e.path = [e] := by
  have hfst := map_fst_placed hload
  have hplace : ∀ {placed}, placed ∈ tokens.placed → placed.1 ∈ tree.places [] := by
    intro placed hplaced
    rw [← hfst]
    exact List.mem_map_of_mem hplaced
  have hdistinct : (tokens.placed.map Prod.fst).Nodup := by
    rw [hfst]
    exact .of_map _ (TokenTree.nodup_segments hproper [])
  -- of the expressions behind their places only one has such a path
  have hfilter : (tokens.placed.filter fun placed =>
      e.path.toList.isPrefixOf placed.2.path.toList) = [(place, e)] := by
    rw [← eraseDups_of_nodup (.filter _ (.of_map _ hdistinct)), eraseDups_eq_singleton_iff]
    constructor
    · have hself : (place, e) ∈ tokens.placed.filter fun placed =>
          e.path.toList.isPrefixOf placed.2.path.toList := by
        refine List.mem_filter.mpr ⟨hmem, ?_⟩
        exact List.isPrefixOf_iff_prefix.mpr List.prefix_rfl
      exact List.ne_nil_of_mem hself
    · rintro ⟨place', e'⟩ hmem'
      obtain ⟨hmem', hfront⟩ := List.mem_filter.mp hmem'
      have hfront := List.isPrefixOf_iff_prefix.mp hfront
      rw [(holds_of_mem_placed hload hmem).2.path, (holds_of_mem_placed hload hmem').2.path]
        at hfront
      have hsame : place' = place := TokenTree.eq_of_path_isPrefix hproper hkeys (hplace hmem)
        (hplace hmem') hscalar hfront
      exact List.inj_on_of_nodup_map hdistinct hmem' hmem hsame
  rw [matching, ← map_snd_placed hload, List.filter_map]
  exact congrArg (List.map Prod.snd) hfilter

/-- Every place holds an expression, which was read from the value there. -/
theorem exists_placed (hproper : tree.IsProper) (hkeys : tree.allKeys isSegment = true)
    (hload : (load tree formatters).result = .ok tokens) (hplace : place ∈ tree.places []) :
    ∃ e text, (place, e) ∈ tokens.placed ∧ tree.leaf? place.segments = some text ∧
      Expression.parse text = .ok e.toExpression := by
  obtain ⟨e, hmem⟩ : ∃ e, (place, e) ∈ tokens.placed := by
    have hfst := hplace
    rw [← map_fst_placed hload] at hfst
    obtain ⟨placed, hmem, rfl⟩ := List.mem_map.mp hfst
    exact ⟨placed.2, hmem⟩
  obtain ⟨he, hholds⟩ := holds_of_mem_placed hload hmem
  rw [expressions_of_load hload] at he
  obtain ⟨value, hvalue, rfl⟩ := List.mem_map.mp he
  have hpath : value.path = place.path := hholds.path
  have hleaf := TokenTree.leaf?_segments hproper hkeys hvalue
  rw [hpath, TokenTree.segments_path hkeys hplace] at hleaf
  exact ⟨_, value.text, hmem, hleaf, parse_of_load hload hvalue⟩

end TokenSet

/-- A number without a unit is written with `px` behind it, all else as it is. -/
theorem Evaluated.lengthText_eq (value : Evaluated) :
    value.lengthText =
      if value.isNumber = true ∧ value.unit? = none then value.display ++ "px"
      else value.display := by
  cases value with
  | text content => simp [lengthText, isNumber]
  | number n unit =>
      cases unit with
      | none => simp [lengthText, isNumber, unit?, display, bareText]
      | some unit => simp [lengthText, unit?]

/-- **Scalar tokens have their value at their full path.** Take the tokens of a document
without repeated keys whose keys are segments, with the standard formatter, and the keys of a
scalar token. Their full path, which ends in `.value`, finds the expression of that token
alone, the one that was read from its text. If this expression has a value, the path comes to
that value, the one that every style sheet of the tokens shows for it, and `px` is added
exactly to numbers without a unit. The path has no value only if the expression has none, and
for the same reason; no other error is possible. -/
theorem valueFor_full_path {document : Json} {tree : TokenTree} {tokens : TokenSet}
    (hdocument : document.IsProper) (htree : (TokenTree.ofJson document).result = .ok tree)
    (hkeys : tree.allKeys isSegment = true)
    (hload : (TokenSet.load tree .standard).result = .ok tokens) {keys : List String}
    (hplace : ⟨keys, none⟩ ∈ tree.places []) :
    ∃ e text, e ∈ Stylesheet.simple tokens.expressions ∧
      e.path = joinSegments (keys ++ ["value"]) ∧ tree.leaf? (keys ++ ["value"]) = some text ∧
      Expression.parse text = .ok e.toExpression ∧ tokens.matching e.path = [e] ∧
      (∀ value, (evaluate tokens.table e.toExpression).result = .ok value →
        (tokens.valueFor e.path).result =
          .ok (if value.isNumber = true ∧ value.unit? = none then value.display ++ "px"
            else value.display) ∧
        ∀ options outputs, ((Platform.css options).run tokens).result = .ok outputs →
          ∃ shown, shown e = value.display ∧
            outputs = [⟨options.fileName, stylesheetText options shown tokens.expressions⟩]) ∧
      ∀ error, (tokens.valueFor e.path).result = .error error ↔
        ∃ cause, (evaluate tokens.table e.toExpression).result = .error cause ∧
          error = .evaluation cause := by
  have hproper := TokenTree.isProper_of_ofJson hdocument htree
  have hstandard := TokenSet.formatters_of_load hload
  obtain ⟨e, text, hmem, hleaf, hparse⟩ := TokenSet.exists_placed hproper hkeys hload hplace
  obtain ⟨he, hholds⟩ := TokenSet.holds_of_mem_placed hload hmem
  have hfound := TokenSet.matching_path hproper hkeys hload hmem rfl
  have hpath : e.path = joinSegments (keys ++ ["value"]) :=
    hholds.path.trans (TokenTree.path_eq_of_isSegment hkeys hplace)
  have hsimple : e ∈ Stylesheet.simple tokens.expressions :=
    List.mem_filter.mpr ⟨he, by rw [hholds.member]; rfl⟩
  refine ⟨e, text, hsimple, hpath, hleaf, hparse, hfound, fun value hvalue => ⟨?_, ?_⟩, ?_⟩
  · rw [← value.lengthText_eq]
    exact (TokenSet.result_valueFor_eq_ok_iff hstandard).mpr ⟨e, value, hfound, hvalue, rfl⟩
  · intro options outputs hrun
    obtain ⟨shown, hshown, houtputs⟩ := Platform.exists_value_of_run_css hrun
    have hsame : shown e = value := Except.ok.inj ((hshown e he).symm.trans hvalue)
    exact ⟨fun e => (shown e).display, congrArg Evaluated.display hsame, houtputs⟩
  · intro error
    exact TokenSet.result_valueFor_eq_error_iff hstandard hfound

/-- A token with the key `value`, next to one whose key goes on from that, in a group whose key
goes on in the key of another token. -/
def nearbyDocument : Json :=
  .object [
    ("gap", .object [
      ("value", .object [("type", .text "size"), ("value", .text "2 * 4")]),
      ("valueWide", .object [("type", .text "size"), ("value", .text "16px")])]),
    ("gapValue", .object [("type", .text "box"), ("value", .object [("value", .text "1px")])])]

/-- The tree of `nearbyDocument`. -/
def nearbyTree : TokenTree :=
  .group "gap"
    (.token "value" ⟨.scalar "2 * 4", "size"⟩ (.token "valueWide" ⟨.scalar "16px", "size"⟩ .nil))
    (.token "gapValue" ⟨.composite [("value", "1px")], "box"⟩ .nil)

/-- The tokens of `nearbyTree`. -/
def nearbyTokens : TokenSet :=
  ⟨nearbyTree, (nearbyTree.values "").map PlacedValue.expression, .empty, .standard⟩

theorem valueFor_full_path_nearby :
    nearbyDocument.IsProper ∧ (TokenTree.ofJson nearbyDocument).result = .ok nearbyTree ∧
      nearbyTree.allKeys isSegment = true ∧
      (TokenSet.load nearbyTree .standard).result = .ok nearbyTokens ∧
      ⟨["gap", "value"], none⟩ ∈ nearbyTree.places [] ∧
      (nearbyTokens.valueFor "gap.value.value").result = .ok "8px" ∧
      ∃ e shown, e.path = "gap.value.value" ∧ nearbyTokens.matching "gap.value.value" = [e] ∧
        shown e = "8" ∧ ((Platform.css {}).run nearbyTokens).result =
          .ok [⟨"design-tokens.css", stylesheetText {} shown nearbyTokens.expressions⟩] := by
  have hdocument : nearbyDocument.IsProper := by simp [nearbyDocument, HasDistinctKeys]
  have htree : (TokenTree.ofJson nearbyDocument).result = .ok nearbyTree := rfl
  have hkeys : nearbyTree.allKeys isSegment = true := by decide
  have hload : (TokenSet.load nearbyTree .standard).result = .ok nearbyTokens :=
    TokenSet.result_load_of_references_eq_nil (by decide +kernel) (by decide +kernel) .standard
  have hplace : ⟨["gap", "value"], none⟩ ∈ nearbyTree.places [] := by decide
  obtain ⟨e, text, -, hpath, hleaf, hparse, hfound, hvalue, -⟩ :=
    valueFor_full_path hdocument htree hkeys hload hplace
  have hpath : e.path = "gap.value.value" := hpath
  cases (show nearbyTree.leaf? ["gap", "value", "value"] = some "2 * 4" by decide).symm.trans hleaf
  -- the text is read as a product, whose value is a number without a unit
  obtain ⟨-, hformula⟩ := Expression.parse_eq_ok_iff.mp hparse
  have hproduct : (evaluate nearbyTokens.table e.toExpression).result =
      .ok (.number ⟨8, 0, by decide, by decide⟩ none) := by
    rw [hformula]
    decide +kernel
  have hrun : ((Platform.css {}).run nearbyTokens).result = .ok [⟨"design-tokens.css",
      ":root \x7b\n    --gap-value: 8;\n    --gap-value-wide: 16px;\n\x7d\n" ++
        "\n.gapValue \x7b\n    value: 1px;\n\x7d\n"⟩] := by
    decide +kernel
  obtain ⟨hlength, hcss⟩ := hvalue _ hproduct
  obtain ⟨shown, hshown, houtputs⟩ := hcss {} _ hrun
  rw [houtputs] at hrun
  rw [hpath] at hfound hlength
  refine ⟨hdocument, htree, hkeys, hload, hplace, hlength.trans (by decide +kernel), e, shown,
    hpath, hfound, hshown.trans (by decide +kernel), hrun⟩

end DesignTokens
