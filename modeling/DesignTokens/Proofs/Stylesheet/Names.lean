import DesignTokens.Proofs.Stylesheet.Grouping
import DesignTokens.Proofs.Text.Kebab
import DesignTokens.Proofs.Tokens.Faults
import DesignTokens.Proofs.Tree.Places

set_option autoImplicit false

/-! # The names of tokens in a style sheet

A name is made from the path of a token, with dashes for points (`dashed`). For the variable of
a simple token it is also put in kebab case (`Stylesheet.propertyOf_eq_iff`); the members of a
composite token go into the rule that is named by the token's path
(`Stylesheet.inOneRule_iff`).

So tokens share a name if their paths differ in points and dashes alone, and variables also if
they differ in capitals; `run_css_names_collide` has a pair of each kind. `run_css_names` says
which tokens share a name, and that keys without such characters keep tokens apart.
-/

namespace DesignTokens

/-! ## Paths as they stand in names -/

/-- A path with dashes for points. -/
def dashed (path : String) : String :=
  String.ofList (path.toList.map fun c => if c = '.' then '-' else c)

section

variable {path path' : String} {scope : Option String}

@[simp] theorem toList_dashed (path : String) :
    (dashed path).toList = path.toList.map fun c => if c = '.' then '-' else c :=
  String.toList_ofList

/-- Where no dash stands, points can be put back. -/
theorem dashed_inj (h : '-' ∉ path.toList) (h' : '-' ∉ path'.toList) :
    dashed path = dashed path' ↔ path = path' := by
  -- points for dashes undo dashes for points
  have hback : ∀ chars : List Char, '-' ∉ chars →
      (chars.map fun c => if c = '.' then '-' else c).map (fun c => if c = '-' then '.' else c) =
        chars := by
    intro chars hchars
    rw [List.map_map]
    refine (List.map_congr_left fun c hc => ?_).trans (List.map_id chars)
    have hdash : c ≠ '-' := fun hdash => hchars (hdash ▸ hc)
    by_cases hpoint : c = '.' <;> simp [hpoint, hdash]
  refine ⟨fun hsame => String.toList_inj.mp ?_, congrArg dashed⟩
  rw [← hback _ h, ← hback _ h', ← toList_dashed, ← toList_dashed, hsame]

theorem intercalate_splitOn_point (chars : List Char) :
    ['-'].intercalate (chars.splitOn '.') = chars.map fun c => if c = '.' then '-' else c := by
  induction chars with
  | nil => rfl
  | cons c chars ih =>
      obtain ⟨first, rest, hsplit⟩ := List.exists_cons_of_ne_nil (List.splitOn_ne_nil '.' chars)
      rw [hsplit] at ih
      rw [List.splitOn_cons_eq_if_modifyHead, hsplit, List.map_cons, ← ih]
      by_cases hpoint : c = '.'
      · subst hpoint
        simp
      · cases rest <;> simp [hpoint]

/-- The parts of a path with dashes between them. -/
theorem intercalate_segments (path : String) : "-".intercalate (segments path) = dashed path := by
  rw [← String.toList_inj, String.toList_intercalate, toList_dashed, segments, List.map_map]
  have hchars : (path.toList.splitOn '.').map (String.toList ∘ String.ofList) =
      path.toList.splitOn '.' := by
    simp
  rw [hchars]
  exact intercalate_splitOn_point path.toList

/-! ## Names of paths -/

theorem scopedName_inj {name name' : String} :
    scopedName scope name = scopedName scope name' ↔ name = name' := by
  refine ⟨fun h => ?_, congrArg _⟩
  unfold scopedName at h
  split at h
  · split_ifs at h
    · exact h
    · simpa using h
  · exact h

/-- The variable of the token at a path. -/
theorem variableName_value (scope : Option String) (path : String) :
    variableName scope (path ++ ".value") = scopedName scope (kebab (dashed path)) := by
  have hvalue : withoutValue (path ++ ".value").toList = path.toList := by
    simp [withoutValue]
  rw [variableName, hvalue]
  rfl

/-- The class of a member of the token at a path, if the member's key has no points. -/
theorem className_member {key : String} (scope : Option String) (path : String)
    (hkey : '.' ∉ key.toList) :
    className scope (path ++ ".value." ++ key) = scopedName scope (dashed path) := by
  have hpath : path ++ ".value." ++ key = path ++ ".value" ++ "." ++ key := by
    simp [← String.toList_inj]
  have hsegments : segments (path ++ ".value." ++ key) = segments path ++ ["value", key] := by
    rw [hpath, segments_append, segments_value, segments_eq_singleton hkey, List.append_assoc]
    rfl
  -- the last two segments are no part of the name of the class
  rw [className, hsegments]
  simp [intercalate_segments]

end

/-! ## Keys as they stand in names -/

/-- The characters of a text apart from points and dashes, capitals as small letters. -/
def letters (text : String) : List Char :=
  (text.toList.filter fun c => c ≠ '.' && c ≠ '-').map lowerChar

/-- Keys that stand in a name as they are: they hold no point and no dash, and no empty key in
front of another gets lost. -/
structure AreShown (keys : List String) : Prop where
  nonempty : keys ≠ []
  pointFree : ∀ key ∈ keys, '.' ∉ key.toList
  dashFree : ∀ key ∈ keys, '-' ∉ key.toList
  first : keys.head? = some "" → keys.length = 1

section

variable {path path' : String} {keys keys' : List String}

theorem letters_append (path path' : String) :
    letters (path ++ path') = letters path ++ letters path' := by
  simp [letters]

/-- The letters of a path are those of the keys that lead to it. -/
theorem letters_pathOfKeys (keys : List String) :
    letters (pathOfKeys keys) = keys.flatMap letters := by
  induction keys using List.reverseRecOn with
  | nil => rfl
  | append_singleton keys key ih =>
      have hpoint : letters "." = [] := by decide
      rw [pathOfKeys_concat, List.flatMap_append, ← ih, List.flatMap_singleton, childPath]
      split_ifs with hempty
      · have hpath : pathOfKeys keys = "" := by simpa using hempty
        rw [hpath]
        rfl
      · rw [letters_append, letters_append, hpoint, List.append_nil]

/-- Kebab case and dashes for points keep the letters of a path. -/
theorem letters_eq_of_kebab (h : kebab (dashed path) = kebab (dashed path')) :
    letters path = letters path' := by
  -- the letters can be read off the kebab form
  have hletters : ∀ path, letters path =
      (kebab (dashed path)).toList.filter fun c => c ≠ '-' := by
    intro path
    rw [kebab, String.toList_ofList, filter_kebabChars, toList_dashed, letters]
    congr 1
    induction path.toList with
    | nil => rfl
    | cons c chars ih =>
        by_cases hpoint : c = '.'
        · simpa [hpoint] using ih
        · by_cases hdash : c = '-' <;> simpa [hpoint, hdash] using ih
  rw [hletters, hletters, h]

namespace AreShown

theorem pathOfKeys_eq (h : AreShown keys) : pathOfKeys keys = joinSegments keys := by
  rw [DesignTokens.pathOfKeys_eq, shownKeys_eq_self h.first]

theorem notMem_pathOfKeys (h : AreShown keys) : '-' ∉ (pathOfKeys keys).toList := by
  rw [h.pathOfKeys_eq]
  intro hdash
  rcases mem_joinSegments hdash with hpoint | ⟨key, hkey, hdash⟩
  · exact absurd hpoint (by decide)
  · exact h.dashFree key hkey hdash

/-- The keys can be read off the name. -/
theorem dashed_inj (h : AreShown keys) (h' : AreShown keys') :
    dashed (pathOfKeys keys) = dashed (pathOfKeys keys') ↔ keys = keys' := by
  rw [DesignTokens.dashed_inj h.notMem_pathOfKeys h'.notMem_pathOfKeys, h.pathOfKeys_eq,
    h'.pathOfKeys_eq]
  refine ⟨fun hsame => ?_, congrArg joinSegments⟩
  rw [← segments_joinSegments h.nonempty h.pointFree, hsame,
    segments_joinSegments h'.nonempty h'.pointFree]

/-- Without capitals, kebab case changes nothing. -/
theorem kebab_eq_self (h : AreShown keys)
    (hsmall : ∀ key ∈ keys, ∀ c ∈ key.toList, isCapital c = false) :
    kebab (dashed (pathOfKeys keys)) = dashed (pathOfKeys keys) := by
  refine DesignTokens.kebab_eq_self fun c hc => ?_
  rw [toList_dashed, h.pathOfKeys_eq] at hc
  obtain ⟨d, hd, rfl⟩ := List.mem_map.mp hc
  split_ifs with hpoint
  · rfl
  · rcases mem_joinSegments hd with hd | ⟨key, hkey, hd⟩
    · exact absurd hd hpoint
    · exact hsmall key hkey d hd

end AreShown

end

/-! ## Expressions and their places -/

/-- The expressions of a token set, each behind the place of its value. -/
def TokenSet.placed (tokens : TokenSet) : List (Place × TokenExpression) :=
  (tokens.tree.places []).zip tokens.expressions

/-- An expression has the path and the member of a place. -/
structure Place.Holds (place : Place) (e : TokenExpression) : Prop where
  path : e.path = place.path
  member : e.member = place.member

/-- Two expressions are declared in one rule. -/
def Stylesheet.InOneRule (options : StylesheetOptions) (expressions : List TokenExpression)
    (e e' : TokenExpression) : Prop :=
  ∃ name ∈ classes options expressions,
    e ∈ membersOf options expressions name ∧ e' ∈ membersOf options expressions name

namespace TokenSet

variable {tree : TokenTree} {formatters : FormatterRegistry} {tokens : TokenSet}
  {place : Place} {e : TokenExpression}

/-- The expressions stand at the places of the tree, in order. -/
theorem forall₂_places (h : (load tree formatters).result = .ok tokens) :
    List.Forall₂ Place.Holds (tree.places []) tokens.expressions := by
  have hmap : (tree.places []).map (fun place => (place.path, place.member)) =
      tokens.expressions.map fun e => (e.path, e.member) := by
    rw [expressions_of_load h, List.map_map, ← tree.map_path_values]
    rfl
  rw [← List.forall₂_eq_eq_eq, List.forall₂_map_left_iff, List.forall₂_map_right_iff] at hmap
  refine hmap.imp fun place e hplace => ?_
  rw [Prod.mk.injEq] at hplace
  exact ⟨hplace.1.symm, hplace.2.symm⟩

theorem placed_of_load (h : (load tree formatters).result = .ok tokens) :
    tokens.placed = (tree.places []).zip tokens.expressions := by
  obtain ⟨expressions, table, -, -, rfl⟩ := result_load_eq_ok_iff.mp h
  rfl

theorem map_fst_placed (h : (load tree formatters).result = .ok tokens) :
    tokens.placed.map Prod.fst = tree.places [] := by
  rw [placed_of_load h, List.map_fst_zip (Nat.le_of_eq (forall₂_places h).length_eq)]

theorem map_snd_placed (h : (load tree formatters).result = .ok tokens) :
    tokens.placed.map Prod.snd = tokens.expressions := by
  rw [placed_of_load h, List.map_snd_zip (Nat.le_of_eq (forall₂_places h).length_eq.symm)]

theorem holds_of_mem_placed (h : (load tree formatters).result = .ok tokens)
    (hmem : (place, e) ∈ tokens.placed) : e ∈ tokens.expressions ∧ place.Holds e := by
  rw [placed_of_load h] at hmem
  exact ⟨(List.of_mem_zip hmem).2, List.forall₂_zip (forall₂_places h) hmem⟩

end TokenSet

namespace Stylesheet

variable {options : StylesheetOptions} {expressions : List TokenExpression}
  {place place' : Place} {e e' : TokenExpression} {key key' : String}

theorem propertyOf_of_simple (options : StylesheetOptions) (h : place.Holds e)
    (hsimple : place.member = none) :
    propertyOf options e =
      scopedName options.variableScope (kebab (dashed (pathOfKeys place.keys))) := by
  have hmember : e.member = none := h.member.trans hsimple
  rw [propertyOf, hmember, h.path, Place.path, hsimple]
  exact variableName_value _ _

theorem class?_of_member (options : StylesheetOptions) (h : place.Holds e)
    (hkey : place.member = some key) (hpoint : '.' ∉ key.toList) :
    e.class? options = some (scopedName options.classScope (dashed (pathOfKeys place.keys))) := by
  have hmember : e.member = some key := h.member.trans hkey
  rw [TokenExpression.class?, hmember, h.path, Place.path, hkey, Option.map_some]
  exact congrArg some (className_member _ _ hpoint)

/-- Simple tokens have one variable exactly if kebab case writes their paths the same. -/
theorem propertyOf_eq_iff (h : place.Holds e) (h' : place'.Holds e')
    (hsimple : place.member = none) (hsimple' : place'.member = none) :
    propertyOf options e = propertyOf options e' ↔
      kebab (dashed (pathOfKeys place.keys)) = kebab (dashed (pathOfKeys place'.keys)) := by
  rw [propertyOf_of_simple options h hsimple, propertyOf_of_simple options h' hsimple',
    scopedName_inj]

theorem inOneRule_iff_class? (he : e ∈ expressions) (he' : e' ∈ expressions) :
    InOneRule options expressions e e' ↔
      ∃ name, e.class? options = some name ∧ e'.class? options = some name := by
  simp only [InOneRule, mem_classes, membersOf, List.mem_filter, decide_eq_true_eq]
  constructor
  · rintro ⟨name, -, ⟨-, hname⟩, -, hname'⟩
    exact ⟨name, hname, hname'⟩
  · rintro ⟨name, hname, hname'⟩
    exact ⟨name, ⟨e, he, hname⟩, ⟨he, hname⟩, he', hname'⟩

/-- Members whose keys have no points are in one rule exactly if the paths of their tokens are
the same with dashes for points. -/
theorem inOneRule_iff (he : e ∈ expressions) (he' : e' ∈ expressions) (h : place.Holds e)
    (h' : place'.Holds e') (hkey : place.member = some key) (hkey' : place'.member = some key')
    (hpoint : '.' ∉ key.toList) (hpoint' : '.' ∉ key'.toList) :
    InOneRule options expressions e e' ↔
      dashed (pathOfKeys place.keys) = dashed (pathOfKeys place'.keys) := by
  rw [inOneRule_iff_class? he he', class?_of_member options h hkey hpoint,
    class?_of_member options h' hkey' hpoint']
  simp [scopedName_inj, eq_comm]

end Stylesheet

/-- A run that succeeds generates the style sheet of the expressions, with their values. -/
theorem Platform.exists_value_of_run_css {options : StylesheetOptions} {tokens : TokenSet}
    {outputs : List OutputFile} (h : ((css options).run tokens).result = .ok outputs) :
    ∃ value : TokenExpression → Evaluated,
      (∀ e ∈ tokens.expressions,
        (evaluate tokens.table e.toExpression).result = .ok (value e)) ∧
      outputs = [⟨options.fileName,
        stylesheetText options (fun e => (value e).display) tokens.expressions⟩] := by
  obtain ⟨sheet, hsheet, -⟩ := Traced.result_bind_eq_ok.mp h
  obtain ⟨resolved, hresolved, -⟩ := Traced.result_bind_eq_ok.mp hsheet
  -- the sheet could be made, so every expression has a value; the text shows these values
  have hvalues : ∀ e ∈ tokens.expressions, ∃ value,
      (evaluate tokens.table e.toExpression).result = .ok value := by
    have hall := Traced.result_mapM_eq_ok_iff.mp hresolved
    refine ((List.forall₂_and_left _ _).mp (hall.imp fun e r hr => ⟨?_, hr⟩)).1
    obtain ⟨value, hvalue, -⟩ := TokenSet.result_resolve_eq_ok_iff.mp hr
    exact ⟨value, hvalue⟩
  have hnonempty : Nonempty Evaluated := ⟨.text ""⟩
  choose! value hvalue using hvalues
  exact ⟨value, hvalue, Except.ok.inj (h.symm.trans (result_run_css_eq_ok hvalue))⟩

theorem Platform.exists_text_of_run_css {options : StylesheetOptions} {tokens : TokenSet}
    {outputs : List OutputFile} (h : ((css options).run tokens).result = .ok outputs) :
    ∃ text, outputs = [⟨options.fileName, stylesheetText options text tokens.expressions⟩] := by
  obtain ⟨value, -, houtputs⟩ := exists_value_of_run_css h
  exact ⟨_, houtputs⟩

/-- **Which tokens share a name.** Take the tokens of a document, each expression with its place
in the tree; no two places are the same. A run of the platform generates the style sheet of these
expressions. Two simple tokens have the same variable exactly if their paths are the same in
kebab case with dashes for points, and then the same letters spell their keys. Two members
whose keys have no points are in one rule if they belong to one token, and only if the paths
of their tokens are the same with dashes for points. So keys without points and dashes keep
tokens apart, as long as they have no capitals in the case of variables. -/
theorem run_css_names {document : Json} {tree : TokenTree} {formatters : FormatterRegistry}
    {tokens : TokenSet} (hdocument : document.IsProper)
    (htree : (TokenTree.ofJson document).result = .ok tree)
    (hload : (TokenSet.load tree formatters).result = .ok tokens) (options : StylesheetOptions) :
    (tree.places []).Nodup ∧ tokens.placed.map Prod.fst = tree.places [] ∧
    tokens.placed.map Prod.snd = tokens.expressions ∧
    (∀ outputs, ((Platform.css options).run tokens).result = .ok outputs →
      ∃ text, outputs = [⟨options.fileName, stylesheetText options text tokens.expressions⟩]) ∧
    ∀ place e place' e', (place, e) ∈ tokens.placed → (place', e') ∈ tokens.placed →
      (place.member = none → place'.member = none →
        (Stylesheet.propertyOf options e = Stylesheet.propertyOf options e' ↔
          kebab (dashed (pathOfKeys place.keys)) = kebab (dashed (pathOfKeys place'.keys))) ∧
        (Stylesheet.propertyOf options e = Stylesheet.propertyOf options e' →
          place.keys.flatMap letters = place'.keys.flatMap letters) ∧
        (AreShown place.keys → AreShown place'.keys →
          (∀ key ∈ place.keys ++ place'.keys, ∀ c ∈ key.toList, isCapital c = false) →
          Stylesheet.propertyOf options e = Stylesheet.propertyOf options e' → place = place')) ∧
      (∀ key ∈ place.member, ∀ key' ∈ place'.member, '.' ∉ key.toList → '.' ∉ key'.toList →
        (place.keys = place'.keys → Stylesheet.InOneRule options tokens.expressions e e') ∧
        (Stylesheet.InOneRule options tokens.expressions e e' →
          dashed (pathOfKeys place.keys) = dashed (pathOfKeys place'.keys)) ∧
        (AreShown place.keys → AreShown place'.keys →
          Stylesheet.InOneRule options tokens.expressions e e' → place.keys = place'.keys)) := by
  have hplaces : (tree.places []).Nodup :=
    .of_map _ (TokenTree.nodup_segments (TokenTree.isProper_of_ofJson hdocument htree) [])
  refine ⟨hplaces, TokenSet.map_fst_placed hload, TokenSet.map_snd_placed hload,
    fun outputs hrun => Platform.exists_text_of_run_css hrun, ?_⟩
  intro place e place' e' hmem hmem'
  obtain ⟨he, hholds⟩ := TokenSet.holds_of_mem_placed hload hmem
  obtain ⟨he', hholds'⟩ := TokenSet.holds_of_mem_placed hload hmem'
  constructor
  · intro hsimple hsimple'
    rw [Stylesheet.propertyOf_eq_iff hholds hholds' hsimple hsimple']
    refine ⟨Iff.rfl, fun hname => ?_, fun hshown hshown' hsmall hname => ?_⟩
    · rw [← letters_pathOfKeys, ← letters_pathOfKeys]
      exact letters_eq_of_kebab hname
    · obtain ⟨hsmall, hsmall'⟩ := List.forall_mem_append.mp hsmall
      rw [hshown.kebab_eq_self hsmall, hshown'.kebab_eq_self hsmall',
        hshown.dashed_inj hshown'] at hname
      exact Place.ext hname (hsimple.trans hsimple'.symm)
  · intro key hkey key' hkey' hpoint hpoint'
    rw [Stylesheet.inOneRule_iff he he' hholds hholds' hkey hkey' hpoint hpoint']
    exact ⟨fun hkeys => by rw [hkeys], id,
      fun hshown hshown' hname => (hshown.dashed_inj hshown').mp hname⟩

/-- Two composite tokens and a simple one. -/
def headingsDocument : Json :=
  .object [
    ("text", .object [
      ("heading", .object [("type", .text "typography"),
        ("value", .object [("fontSize", .text "16px"), ("fontWeight", .text "bold")])]),
      ("body", .object [("type", .text "typography"),
        ("value", .object [("fontSize", .text "12px")])])]),
    ("textHeading", .object [("type", .text "color"), ("value", .text "#0055ff")])]

/-- The tree of `headingsDocument`. -/
def headingsTree : TokenTree :=
  .group "text"
    (.token "heading" ⟨.composite [("fontSize", "16px"), ("fontWeight", "bold")], "typography"⟩
      (.token "body" ⟨.composite [("fontSize", "12px")], "typography"⟩ .nil))
    (.token "textHeading" ⟨.scalar "#0055ff", "color"⟩ .nil)

/-- The tokens of `headingsTree`. -/
def headingsTokens : TokenSet :=
  ⟨headingsTree, (headingsTree.values "").map PlacedValue.expression, .empty, .standard⟩

theorem run_css_names_headings :
    headingsDocument.IsProper ∧ (TokenTree.ofJson headingsDocument).result = .ok headingsTree ∧
      (TokenSet.load headingsTree .standard).result = .ok headingsTokens ∧
      ∃ size weight other color, headingsTokens.placed =
          [(⟨["text", "heading"], some "fontSize"⟩, size),
            (⟨["text", "heading"], some "fontWeight"⟩, weight),
            (⟨["text", "body"], some "fontSize"⟩, other), (⟨["textHeading"], none⟩, color)] ∧
        Stylesheet.InOneRule {} headingsTokens.expressions size weight ∧
        ¬Stylesheet.InOneRule {} headingsTokens.expressions size other := by
  have hdocument : headingsDocument.IsProper := by simp [headingsDocument, HasDistinctKeys]
  have htree : (TokenTree.ofJson headingsDocument).result = .ok headingsTree := rfl
  have hload : (TokenSet.load headingsTree .standard).result = .ok headingsTokens :=
    TokenSet.result_load_of_references_eq_nil (by decide +kernel) (by decide +kernel) .standard
  obtain ⟨size, weight, other, color, hplaced⟩ : ∃ size weight other color,
      headingsTokens.placed =
        [(⟨["text", "heading"], some "fontSize"⟩, size),
          (⟨["text", "heading"], some "fontWeight"⟩, weight),
          (⟨["text", "body"], some "fontSize"⟩, other), (⟨["textHeading"], none⟩, color)] :=
    ⟨_, _, _, _, rfl⟩
  have hheading : AreShown ["text", "heading"] :=
    ⟨by decide, by decide, by decide, by decide⟩
  have hbody : AreShown ["text", "body"] := ⟨by decide, by decide, by decide, by decide⟩
  obtain ⟨-, -, -, -, hnames⟩ := run_css_names hdocument htree hload {}
  obtain ⟨-, hone⟩ := hnames ⟨["text", "heading"], some "fontSize"⟩ size
    ⟨["text", "heading"], some "fontWeight"⟩ weight (by simp [hplaced]) (by simp [hplaced])
  obtain ⟨-, htwo⟩ := hnames ⟨["text", "heading"], some "fontSize"⟩ size
    ⟨["text", "body"], some "fontSize"⟩ other (by simp [hplaced]) (by simp [hplaced])
  refine ⟨hdocument, htree, hload, size, weight, other, color, hplaced, ?_, fun hrule => ?_⟩
  · exact (hone _ rfl _ rfl (by decide) (by decide)).1 rfl
  · have hkeys := (htwo _ rfl _ rfl (by decide) (by decide)).2.2 hheading hbody hrule
    exact absurd hkeys (by decide)

/-- Keys that differ in a point or a dash. -/
def collidingDocument : Json :=
  .object [
    ("a", .object [
      ("b", .object [("type", .text "size"), ("value", .text "1px")]),
      ("c", .object [("type", .text "box"), ("value", .object [("x", .text "2px")])])]),
    ("a-b", .object [("type", .text "size"), ("value", .text "3px")]),
    ("a-c", .object [("type", .text "box"), ("value", .object [("y", .text "4px")])])]

/-- The tree of `collidingDocument`. -/
def collidingTree : TokenTree :=
  .group "a"
    (.token "b" ⟨.scalar "1px", "size"⟩ (.token "c" ⟨.composite [("x", "2px")], "box"⟩ .nil))
    (.token "a-b" ⟨.scalar "3px", "size"⟩ (.token "a-c" ⟨.composite [("y", "4px")], "box"⟩ .nil))

/-- The tokens of `collidingTree`. -/
def collidingTokens : TokenSet :=
  ⟨collidingTree, (collidingTree.values "").map PlacedValue.expression, .empty, .standard⟩

/-- Different simple tokens may share a variable, and different composite tokens a rule. -/
theorem run_css_names_collide :
    collidingDocument.IsProper ∧ (TokenTree.ofJson collidingDocument).result = .ok collidingTree ∧
      (TokenSet.load collidingTree .standard).result = .ok collidingTokens ∧
      ((Platform.css {}).run collidingTokens).result = .ok [⟨"design-tokens.css",
        ":root \x7b\n    --a-b: 1px;\n    --a-b: 3px;\n\x7d\n" ++
          "\n.a-c \x7b\n    x: 2px;\n    y: 4px;\n\x7d\n"⟩] ∧
      ∃ b x b' y, collidingTokens.placed =
          [(⟨["a", "b"], none⟩, b), (⟨["a", "c"], some "x"⟩, x), (⟨["a-b"], none⟩, b'),
            (⟨["a-c"], some "y"⟩, y)] ∧
        Stylesheet.propertyOf {} b = Stylesheet.propertyOf {} b' ∧
        Stylesheet.InOneRule {} collidingTokens.expressions x y := by
  have hload : (TokenSet.load collidingTree .standard).result = .ok collidingTokens :=
    TokenSet.result_load_of_references_eq_nil (by decide +kernel) (by decide +kernel) .standard
  refine ⟨by simp [collidingDocument, HasDistinctKeys], rfl, hload, by decide +kernel, _, _, _, _,
    rfl, by decide +kernel, ?_⟩
  exact ⟨"a-c", by decide +kernel, by decide +kernel, by decide +kernel⟩

end DesignTokens
