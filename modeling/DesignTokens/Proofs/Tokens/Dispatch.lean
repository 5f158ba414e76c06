import DesignTokens.Proofs.FirstAppearances
import DesignTokens.Proofs.Tokens.Loading
import DesignTokens.Proofs.Tree.References

set_option autoImplicit false

/-! # Dispatch to formatters

What a registry holds depends on its history only: `FormatterRegistry.get?_after` says that
the formatter for a type is the last one that was registered for it. In these terms
`Dispatches` lists the six ways in which a key is dispatched, two to a formatter and four to
an error. They exclude each other and leave nothing out, so the selection of a key is the one
of its way (`TokenSet.select_eq_iff`), and `valueFor_dispatches` reads off when a formatter is
called, and what it is given.
-/

namespace DesignTokens

namespace FormatterRegistry

/-! ## Histories of registries -/

/-- The registry after more registrations, one after the other. -/
def after (registry : FormatterRegistry) (history : List Formatter) : FormatterRegistry :=
  history.foldl register registry

/-- The formatter that was registered last for a type. -/
def lastFor (history : List Formatter) (tokenType : String) : Option Formatter :=
  (history.filter fun f => f.tokenType == tokenType).getLast?

variable {history : List Formatter} {tokenType : String}

theorem lastFor_concat (history : List Formatter) (formatter : Formatter) (tokenType : String) :
    lastFor (history ++ [formatter]) tokenType =
      if formatter.tokenType = tokenType then some formatter else lastFor history tokenType := by
  by_cases h : formatter.tokenType = tokenType
  · simp [lastFor, h]
  · simp [lastFor, h]

/-- A registry that was built from nothing holds the formatters registered last. -/
theorem get?_after (history : List Formatter) (tokenType : String) :
    (empty.after history).get? tokenType = lastFor history tokenType := by
  induction history using List.reverseRecOn with
  | nil => rfl
  | append_singleton history formatter ih =>
      have hafter : empty.after (history ++ [formatter]) =
          (empty.after history).register formatter := by
        rw [after, List.foldl_append]
        rfl
      rw [hafter, get?_register, lastFor_concat, ih]

/-- The standard registry has the history of one formatter. -/
theorem after_standard (history : List Formatter) :
    standard.after history = empty.after (.single :: history) := rfl

/-- A type that a formatter was registered for keeps a formatter. -/
theorem lastFor_ne_none {formatter : Formatter} (h : formatter ∈ history) :
    lastFor history formatter.tokenType ≠ none := by
  intro hnone
  have hnil := List.getLast?_eq_none_iff.mp hnone
  exact List.filter_eq_nil_iff.mp hnil formatter h (beq_self_eq_true _)

end FormatterRegistry

open FormatterRegistry (lastFor)

/-! ## Ways to dispatch -/

/-- Expressions are of one type: there are some, and all are of that type. -/
def AreOfType (found : List TokenExpression) (tokenType : String) : Prop :=
  found ≠ [] ∧ ∀ e ∈ found, e.tokenType = tokenType

/-- A type is left to the formatter for single values: it is that formatter's own type, or no
formatter was registered for it. -/
def IsLeftToDefault (history : List Formatter) (tokenType : String) : Prop :=
  tokenType = defaultType ∨ lastFor history tokenType = none

/-- The type of the formatter that is used for a type. -/
def effectiveType (history : List Formatter) (tokenType : String) : String :=
  if (lastFor history tokenType).isSome then tokenType else defaultType

/-- The types of expressions, in the order of their first appearances. -/
def typesOf (found : List TokenExpression) : List String :=
  (found.map TokenExpression.tokenType).eraseDups

/-- How a key is dispatched that finds these expressions, when the formatters were registered
in this order. -/
inductive Dispatches (history : List Formatter) (key : String) (found : List TokenExpression) :
    Except TokenError Selection → Prop
  | own {tokenType : String} {formatter : Formatter} (htype : AreOfType found tokenType)
      (hne : tokenType ≠ defaultType) (hlast : lastFor history tokenType = some formatter) :
      Dispatches history key found (.ok ⟨formatter, found⟩)
  | single {tokenType : String} {formatter : Formatter} (htype : AreOfType found tokenType)
      (hleft : IsLeftToDefault history tokenType) (hone : found.length = 1)
      (hlast : lastFor history defaultType = some formatter) :
      Dispatches history key found (.ok ⟨formatter, found⟩)
  | nothing (hnil : found = []) : Dispatches history key found (.error (.notFound key))
  | conflicting (htypes : 1 < (typesOf found).length) :
      Dispatches history key found (.error (.conflictingTypes key (typesOf found)))
  | ambiguous {tokenType : String} (htype : AreOfType found tokenType)
      (hleft : IsLeftToDefault history tokenType) (hmany : 1 < found.length) :
      Dispatches history key found (.error (.ambiguousMatch key found.length))
  | unknown {tokenType : String} (htype : AreOfType found tokenType)
      (hleft : IsLeftToDefault history tokenType) (hone : found.length = 1)
      (hlast : lastFor history defaultType = none) :
      Dispatches history key found (.error (.unknownFormatter defaultType))

section

variable {history : List Formatter} {key tokenType : String} {found : List TokenExpression}

theorem typesOf_eq_singleton_iff : typesOf found = [tokenType] ↔ AreOfType found tokenType := by
  rw [typesOf, eraseDups_eq_singleton_iff, AreOfType]
  simp

theorem effectiveType_of_lastFor {formatter : Formatter}
    (h : lastFor history tokenType = some formatter) :
    effectiveType history tokenType = tokenType := by
  rw [effectiveType, h]
  rfl

theorem effectiveType_of_isLeftToDefault (h : IsLeftToDefault history tokenType) :
    effectiveType history tokenType = defaultType := by
  rcases h with rfl | hnone
  · exact ite_self _
  · rw [effectiveType, hnone]
    rfl

/-- Every key is dispatched in one of the ways. -/
theorem exists_dispatches (history : List Formatter) (key : String)
    (found : List TokenExpression) : ∃ outcome, Dispatches history key found outcome := by
  by_cases hnil : found = []
  · exact ⟨_, .nothing hnil⟩
  · have hpos : 0 < found.length := List.length_pos_iff.mpr hnil
    by_cases htypes : 1 < (typesOf found).length
    · exact ⟨_, .conflicting htypes⟩
    · -- what was found has some type, so it has a single one
      have hsome : typesOf found ≠ [] := by
        rw [typesOf, Ne, eraseDups_eq_nil_iff, List.map_eq_nil_iff]
        exact hnil
      have hlength : (typesOf found).length = 1 := by
        have := List.length_pos_iff.mpr hsome
        omega
      obtain ⟨tokenType, hsingle⟩ := List.length_eq_one_iff.mp hlength
      have htype := typesOf_eq_singleton_iff.mp hsingle
      by_cases hleft : IsLeftToDefault history tokenType
      · by_cases hmany : 1 < found.length
        · exact ⟨_, .ambiguous htype hleft hmany⟩
        · have hone : found.length = 1 := by omega
          cases hlast : lastFor history defaultType with
          | none => exact ⟨_, .unknown htype hleft hone hlast⟩
          | some formatter => exact ⟨_, .single htype hleft hone hlast⟩
      · obtain ⟨hne, hlast⟩ := not_or.mp hleft
        obtain ⟨formatter, hlast⟩ := Option.ne_none_iff_exists'.mp hlast
        exact ⟨_, .own htype hne hlast⟩

end

namespace TokenSet

variable {tokens : TokenSet} {history : List Formatter} {key tokenType : String}
  {outcome : Except TokenError Selection}

/-- What is found is a part of the expressions, in their order. -/
theorem mem_matching_iff {e : TokenExpression} :
    e ∈ tokens.matching key ↔ e ∈ tokens.expressions ∧ key.toList <+: e.path.toList := by
  rw [matching, List.mem_filter, List.isPrefixOf_iff_prefix]

theorem effective_eq (hget : ∀ t, tokens.formatters.get? t = lastFor history t)
    (tokenType : String) :
    (if tokens.formatters.contains tokenType then tokenType else defaultType) =
      effectiveType history tokenType := by
  rw [FormatterRegistry.contains, hget]
  rfl

/-- The selection when all that is found is of one type. -/
theorem select_of_areOfType (hget : ∀ t, tokens.formatters.get? t = lastFor history t)
    (htype : AreOfType (tokens.matching key) tokenType) :
    tokens.select key =
      if effectiveType history tokenType = defaultType ∧ 1 < (tokens.matching key).length then
        .error (.ambiguousMatch key (tokens.matching key).length)
      else
        (lastFor history (effectiveType history tokenType)).elim
          (.error (.unknownFormatter (effectiveType history tokenType)))
          fun formatter => .ok ⟨formatter, tokens.matching key⟩ := by
  have hsingle := typesOf_eq_singleton_iff.mpr htype
  unfold typesOf at hsingle
  unfold select
  simp only [hsingle, effective_eq hget, hget]
  cases lastFor history (effectiveType history tokenType) with
  | none => rfl
  | some formatter => rfl

theorem select_eq_conflicting (htypes : 1 < (typesOf (tokens.matching key)).length) :
    tokens.select key = .error (.conflictingTypes key (typesOf (tokens.matching key))) := by
  obtain ⟨first, second, rest, hcons⟩ :
      ∃ first second rest, typesOf (tokens.matching key) = first :: second :: rest := by
    cases hcases : typesOf (tokens.matching key) with
    | nil => simp [hcases] at htypes
    | cons first rest =>
        cases rest with
        | nil => simp [hcases] at htypes
        | cons second rest => exact ⟨first, second, rest, rfl⟩
  rw [hcons]
  unfold typesOf at hcons
  unfold select
  simp only [hcons]

/-- The way in which a key is dispatched decides what is selected. -/
theorem select_of_dispatches (hget : ∀ t, tokens.formatters.get? t = lastFor history t)
    (h : Dispatches history key (tokens.matching key) outcome) : tokens.select key = outcome := by
  cases h with
  | @own tokenType formatter htype hne hlast =>
      have heffective := effectiveType_of_lastFor hlast
      rw [select_of_areOfType hget htype, heffective, if_neg fun h => hne h.1, hlast,
        Option.elim_some]
  | single htype hleft hone hlast =>
      have heffective := effectiveType_of_isLeftToDefault hleft
      rw [select_of_areOfType hget htype, heffective, if_neg (by omega), hlast, Option.elim_some]
  | nothing hnil =>
      unfold select
      rw [hnil]
      rfl
  | conflicting htypes => exact select_eq_conflicting htypes
  | ambiguous htype hleft hmany =>
      have heffective := effectiveType_of_isLeftToDefault hleft
      rw [select_of_areOfType hget htype, if_pos ⟨heffective, hmany⟩]
  | unknown htype hleft hone hlast =>
      have heffective := effectiveType_of_isLeftToDefault hleft
      rw [select_of_areOfType hget htype, heffective, if_neg (by omega), hlast, Option.elim_none]

/-- A key is dispatched in the way it is selected. -/
theorem select_eq_iff (hget : ∀ t, tokens.formatters.get? t = lastFor history t) :
    tokens.select key = outcome ↔ Dispatches history key (tokens.matching key) outcome := by
  constructor
  · rintro rfl
    obtain ⟨outcome, h⟩ := exists_dispatches history key (tokens.matching key)
    rwa [select_of_dispatches hget h]
  · exact select_of_dispatches hget

/-! ## Calls -/

/-- What a key comes to when formatters were registered in this order. -/
structure DispatchesBy (tokens : TokenSet) (history : List Formatter) (key : String) : Prop where
  /-- What is found are the expressions whose paths start with the key, in their order. -/
  found : (tokens.matching key).Sublist tokens.expressions ∧
    ∀ e, e ∈ tokens.matching key ↔ e ∈ tokens.expressions ∧ key.toList <+: e.path.toList
  /-- A formatter is called with all that was found: the last one for the type of it all, or
  for a single expression whose type is left to it the last default one. -/
  called : ∀ formatter given, tokens.select key = .ok ⟨formatter, given⟩ ↔
    given = tokens.matching key ∧ ∃ tokenType, AreOfType (tokens.matching key) tokenType ∧
      (tokenType ≠ defaultType ∧ lastFor history tokenType = some formatter ∨
        IsLeftToDefault history tokenType ∧ (tokens.matching key).length = 1 ∧
          lastFor history defaultType = some formatter)
  /-- Otherwise nothing was found, or there are several types, or the one type is left to the
  default formatter: that takes a single expression only, or does not exist. -/
  failed : ∀ error, tokens.select key = .error error ↔
    tokens.matching key = [] ∧ error = .notFound key ∨
    1 < (typesOf (tokens.matching key)).length ∧
      error = .conflictingTypes key (typesOf (tokens.matching key)) ∨
    ∃ tokenType, AreOfType (tokens.matching key) tokenType ∧ IsLeftToDefault history tokenType ∧
      (1 < (tokens.matching key).length ∧
          error = .ambiguousMatch key (tokens.matching key).length ∨
        (tokens.matching key).length = 1 ∧ lastFor history defaultType = none ∧
          error = .unknownFormatter defaultType)
  /-- The call is reported and made, at any depth of nested questions. -/
  runs : ∀ nesting formatter given, tokens.select key = .ok ⟨formatter, given⟩ →
    tokens.valueForWithin (nesting + 1) key = do
      Traced.report (.dispatching key formatter.tokenType given.length)
      formatter.format
        ⟨tokens.tree, tokens.expressions, tokens.table, tokens.valueForWithin nesting⟩ given
  /-- Without a call, the key has no value. -/
  ends : ∀ nesting error, tokens.select key = .error error →
    tokens.valueForWithin (nesting + 1) key = .fail error

theorem dispatchesBy (hget : ∀ t, tokens.formatters.get? t = lastFor history t) (key : String) :
    tokens.DispatchesBy history key where
  found := ⟨List.filter_sublist, fun _ => mem_matching_iff⟩
  called formatter given := by
    rw [select_eq_iff hget]
    constructor
    · intro h
      cases h with
      | own htype hne hlast => exact ⟨rfl, _, htype, Or.inl ⟨hne, hlast⟩⟩
      | single htype hleft hone hlast => exact ⟨rfl, _, htype, Or.inr ⟨hleft, hone, hlast⟩⟩
    · rintro ⟨rfl, tokenType, htype, ⟨hne, hlast⟩ | ⟨hleft, hone, hlast⟩⟩
      · exact .own htype hne hlast
      · exact .single htype hleft hone hlast
  failed error := by
    rw [select_eq_iff hget]
    constructor
    · intro h
      cases h with
      | nothing hnil => exact Or.inl ⟨hnil, rfl⟩
      | conflicting htypes => exact Or.inr (Or.inl ⟨htypes, rfl⟩)
      | ambiguous htype hleft hmany =>
          exact Or.inr (Or.inr ⟨_, htype, hleft, Or.inl ⟨hmany, rfl⟩⟩)
      | unknown htype hleft hone hlast =>
          exact Or.inr (Or.inr ⟨_, htype, hleft, Or.inr ⟨hone, hlast, rfl⟩⟩)
    · rintro (⟨hnil, rfl⟩ | ⟨htypes, rfl⟩ | ⟨tokenType, htype, hleft, hcount⟩)
      · exact .nothing hnil
      · exact .conflicting htypes
      · rcases hcount with ⟨hmany, rfl⟩ | ⟨hone, hlast, rfl⟩
        · exact .ambiguous htype hleft hmany
        · exact .unknown htype hleft hone hlast
  runs nesting formatter given hselect := valueForWithin_of_select hselect nesting
  ends nesting error hselect := by
    rw [valueForWithin, hselect]
    rfl

end TokenSet

/-- **A formatter is called only with what it may assume.** Let formatters be registered one
after the other, in an empty registry or in the standard one. A key then calls a formatter
exactly when all it finds is of one type and either that type, not the default one, has a
formatter, which gets everything that was found, or the type is left to the default formatter
and a single expression was found. The last formatter that was registered counts. All other
keys fail, each with the one error that `TokenSet.DispatchesBy` gives it; that a formatter is
missing does not happen when the standard registry was the first. -/
theorem valueFor_dispatches (tokens : TokenSet) (history : List Formatter) (key : String) :
    (tokens.formatters = FormatterRegistry.empty.after history →
      tokens.DispatchesBy history key) ∧
    (tokens.formatters = FormatterRegistry.standard.after history →
      tokens.DispatchesBy (.single :: history) key ∧
        ∀ tokenType, tokens.select key ≠ .error (.unknownFormatter tokenType)) := by
  have hempty : ∀ registered, tokens.formatters = FormatterRegistry.empty.after registered →
      ∀ t, tokens.formatters.get? t = lastFor registered t := by
    intro registered hformatters t
    rw [hformatters, FormatterRegistry.get?_after]
  constructor
  · intro hformatters
    exact TokenSet.dispatchesBy (hempty history hformatters) key
  · intro hformatters
    rw [FormatterRegistry.after_standard] at hformatters
    have hdispatches := TokenSet.dispatchesBy (hempty _ hformatters) key
    refine ⟨hdispatches, fun tokenType hunknown => ?_⟩
    -- the formatter for single values was registered first, so some default one was last
    have hdefault : lastFor (.single :: history) defaultType ≠ none :=
      FormatterRegistry.lastFor_ne_none List.mem_cons_self
    rcases (hdispatches.failed _).mp hunknown with ⟨-, h⟩ | ⟨-, h⟩ | ⟨_, -, -, hcount⟩
    · cases h
    · cases h
    · rcases hcount with ⟨-, h⟩ | ⟨-, hnone, -⟩
      · cases h
      · exact hdefault hnone

/-- A text style with two members, and two sizes whose keys start alike. -/
def styledTree : TokenTree :=
  .token "body" ⟨.composite [("fontSize", "16px"), ("fontWeight", "bold")], "typography"⟩
    (.token "gap" ⟨.scalar "4px", "size"⟩ (.token "gapWide" ⟨.scalar "8px", "size"⟩ .nil))

/-- The formatter for text styles was replaced; sizes have none. -/
def styledTokens : TokenSet where
  tree := styledTree
  expressions := (styledTree.values "").map PlacedValue.expression
  table := .empty
  formatters := FormatterRegistry.standard.after
    [.declarations "typography", .quoting "typography" "gapWide"]

theorem valueFor_dispatches_styled :
    styledTokens.select "body" =
        .ok ⟨.quoting "typography" "gapWide", styledTokens.matching "body"⟩ ∧
      styledTokens.select "gapWide" = .ok ⟨.single, styledTokens.matching "gapWide"⟩ ∧
      styledTokens.select "gap" = .error (.ambiguousMatch "gap" 2) ∧
      styledTokens.select "" = .error (.conflictingTypes "" ["typography", "size"]) ∧
      styledTokens.select "size" = .error (.notFound "size") ∧
      TokenSet.select { styledTokens with formatters := .empty } "gapWide" =
        .error (.unknownFormatter "default") := by
  have hdispatches : ∀ key, styledTokens.DispatchesBy
      [.single, .declarations "typography", .quoting "typography" "gapWide"] key := fun key =>
    ((valueFor_dispatches styledTokens
      [.declarations "typography", .quoting "typography" "gapWide"] key).2 rfl).1
  have hstyle : lastFor [.single, .declarations "typography", .quoting "typography" "gapWide"]
      "typography" = some (.quoting "typography" "gapWide") := rfl
  have hsize : lastFor [.single, .declarations "typography", .quoting "typography" "gapWide"]
      "size" = none := rfl
  have hdefault : lastFor [.single, .declarations "typography", .quoting "typography" "gapWide"]
      defaultType = some .single := rfl
  have hbody : AreOfType (styledTokens.matching "body") "typography" :=
    typesOf_eq_singleton_iff.mp (by decide +kernel)
  have hgap : AreOfType (styledTokens.matching "gap") "size" :=
    typesOf_eq_singleton_iff.mp (by decide +kernel)
  have hwide : AreOfType (styledTokens.matching "gapWide") "size" :=
    typesOf_eq_singleton_iff.mp (by decide +kernel)
  have hone : (styledTokens.matching "gapWide").length = 1 := by decide +kernel
  refine ⟨?_, ?_, ?_, ?_, ?_, ?_⟩
  · exact ((hdispatches _).called _ _).mpr ⟨rfl, _, hbody, Or.inl ⟨by decide, hstyle⟩⟩
  · exact ((hdispatches _).called _ _).mpr
      ⟨rfl, _, hwide, Or.inr ⟨Or.inr hsize, hone, hdefault⟩⟩
  · have htwo : (styledTokens.matching "gap").length = 2 := by decide +kernel
    refine ((hdispatches _).failed _).mpr (Or.inr (Or.inr ⟨_, hgap, Or.inr hsize, Or.inl ?_⟩))
    rw [htwo]
    exact ⟨by decide, rfl⟩
  · have htypes : typesOf (styledTokens.matching "") = ["typography", "size"] := by decide +kernel
    refine ((hdispatches _).failed _).mpr (Or.inr (Or.inl ?_))
    rw [htypes]
    exact ⟨by decide, rfl⟩
  · exact ((hdispatches _).failed _).mpr (Or.inl ⟨by decide +kernel, rfl⟩)
  · have hunregistered := (valueFor_dispatches { styledTokens with formatters := .empty } []
      "gapWide").1 rfl
    exact (hunregistered.failed _).mpr
      (Or.inr (Or.inr ⟨_, hwide, Or.inr rfl, Or.inr ⟨hone, rfl, rfl⟩⟩))

end DesignTokens
