import DesignTokens.Platform
import DesignTokens.Proofs.FirstAppearances
import DesignTokens.Proofs.Tree.References
import Mathlib.Data.List.Induction
import Mathlib.Data.List.Nodup
import Mathlib.Data.List.Perm.Basic

set_option autoImplicit false

/-! # The declarations of a style sheet

A style sheet is built one expression at a time: a simple token adds a variable, a member
adds a declaration to the first rule of its class, or opens a rule. `Stylesheet.foldl_add`
says what has been built after any number of expressions: the variables are those of the
simple expressions, in order, and the rules are the classes in the order of their first
members, each with the declarations of its members in order.

`stylesheetText` writes this down without building anything, and `run_css_declares_each_once`
says that it is the file that the platform generates, unless an expression has no value.
-/

namespace DesignTokens

/-! ## Rules -/

/-- A declaration is added at the end of the rule of its class, which is the only one. -/
theorem Rule.addTo_of_mem {names : List String} {declarations : String → List Declaration}
    {name : String} {declaration : Declaration} (hnodup : names.Nodup) (hmem : name ∈ names) :
    addTo name declaration (names.map fun n => ⟨n, declarations n⟩) =
      names.map fun n =>
        ⟨n, if n = name then declarations n ++ [declaration] else declarations n⟩ := by
  induction names with
  | nil => cases hmem
  | cons n names ih =>
      obtain ⟨hnew, hnodup⟩ := List.nodup_cons.mp hnodup
      rw [List.map_cons, List.map_cons, addTo]
      by_cases hn : n = name
      · subst hn
        have hrest : ∀ m ∈ names, m ≠ n := by
          rintro m hm rfl
          exact hnew hm
        rw [if_pos rfl, if_pos rfl]
        refine congrArg _ (List.map_congr_left fun m hm => ?_)
        rw [if_neg (hrest m hm)]
      · have hmem : name ∈ names := (List.mem_cons.mp hmem).resolve_left (Ne.symm hn)
        rw [if_neg hn, if_neg hn, ih hnodup hmem]

/-- A declaration of a new class opens a rule after the others. -/
theorem Rule.addTo_of_notMem {rules : List Rule} {name : String} {declaration : Declaration}
    (h : ∀ rule ∈ rules, rule.className ≠ name) :
    addTo name declaration rules = rules ++ [⟨name, [declaration]⟩] := by
  induction rules with
  | nil => rfl
  | cons rule rules ih =>
      obtain ⟨hrule, hrules⟩ := List.forall_mem_cons.mp h
      rw [addTo, if_neg hrule, ih hrules, List.cons_append]

/-! ## Expressions and their places -/

/-- The class that an expression is declared in, if it is a member of a composite token. -/
def TokenExpression.class? (options : StylesheetOptions) (e : TokenExpression) : Option String :=
  e.member.map fun _ => className options.classScope e.path

namespace Stylesheet

/-- The property that an expression declares: a variable, or that of a member. -/
def propertyOf (options : StylesheetOptions) (e : TokenExpression) : String :=
  match e.member with
  | none => variableName options.variableScope e.path
  | some key => kebab key

/-- The expressions of simple tokens. -/
def simple (expressions : List TokenExpression) : List TokenExpression :=
  expressions.filter fun e => e.member.isNone

/-- The classes of expressions, in the order of their first members. -/
def classes (options : StylesheetOptions) (expressions : List TokenExpression) : List String :=
  (expressions.filterMap (TokenExpression.class? options)).eraseDups

/-- The members of a class. -/
def membersOf (options : StylesheetOptions) (expressions : List TokenExpression) (name : String) :
    List TokenExpression :=
  expressions.filter fun e => decide (e.class? options = some name)

variable {options : StylesheetOptions} {expressions : List TokenExpression} {e : TokenExpression}
  {name : String}

theorem nodup_classes (options : StylesheetOptions) (expressions : List TokenExpression) :
    (classes options expressions).Nodup :=
  nodup_eraseDups _

theorem mem_classes : name ∈ classes options expressions ↔
    ∃ e ∈ expressions, e.class? options = some name := by
  rw [classes, List.mem_eraseDups, List.mem_filterMap]

theorem classes_concat_of_none (h : e.class? options = none) :
    classes options (expressions ++ [e]) = classes options expressions := by
  rw [classes, classes, List.filterMap_append, List.filterMap_cons_none h, List.filterMap_nil,
    List.append_nil]

theorem classes_concat_of_some (h : e.class? options = some name) :
    classes options (expressions ++ [e]) =
      if name ∈ classes options expressions then classes options expressions
      else classes options expressions ++ [name] := by
  rw [classes, classes, List.filterMap_append, List.filterMap_cons_some h, List.filterMap_nil,
    eraseDups_concat]
  simp only [List.mem_eraseDups]

theorem membersOf_concat_of_eq (h : e.class? options = some name) :
    membersOf options (expressions ++ [e]) name = membersOf options expressions name ++ [e] := by
  simp [membersOf, h]

theorem membersOf_concat_of_ne (h : e.class? options ≠ some name) :
    membersOf options (expressions ++ [e]) name = membersOf options expressions name := by
  simp [membersOf, h]

theorem membersOf_eq_nil (h : name ∉ classes options expressions) :
    membersOf options expressions name = [] := by
  refine List.filter_eq_nil_iff.mpr fun e he hclass => ?_
  exact h (mem_classes.mpr ⟨e, he, of_decide_eq_true hclass⟩)

/-! ## Building a style sheet -/

/-- The variables and rules of expressions, given the texts of their values. -/
def grouped (options : StylesheetOptions) (text : TokenExpression → String)
    (expressions : List TokenExpression) : Stylesheet where
  properties := (simple expressions).map fun e => ⟨propertyOf options e, text e⟩
  rules := (classes options expressions).map fun name =>
    ⟨name, (membersOf options expressions name).map fun e => ⟨propertyOf options e, text e⟩⟩

variable {text : TokenExpression → String}

/-- One more simple expression is one more variable. -/
theorem add_grouped_of_none (hmember : e.member = none) :
    add options (grouped options text expressions) ⟨e, text e⟩ =
      grouped options text (expressions ++ [e]) := by
  have hclass : e.class? options = none := by rw [TokenExpression.class?, hmember]; rfl
  have hsimple : simple (expressions ++ [e]) = simple expressions ++ [e] := by
    simp [simple, List.filter_append, hmember]
  have hne : ∀ name, e.class? options ≠ some name := by simp [hclass]
  have hproperty : propertyOf options e = variableName options.variableScope e.path := by
    rw [propertyOf, hmember]
  simp only [add, hmember, grouped, addVariable, hsimple, classes_concat_of_none hclass,
    membersOf_concat_of_ne (hne _), List.map_append, List.map_singleton, hproperty]

/-- One more member is one more declaration in the rule of its class. -/
theorem add_grouped_of_some {key : String} (hmember : e.member = some key) :
    add options (grouped options text expressions) ⟨e, text e⟩ =
      grouped options text (expressions ++ [e]) := by
  have hclass : e.class? options = some (className options.classScope e.path) := by
    rw [TokenExpression.class?, hmember]
    rfl
  have hsimple : simple (expressions ++ [e]) = simple expressions := by
    simp [simple, List.filter_append, hmember]
  have hproperty : propertyOf options e = kebab key := by rw [propertyOf, hmember]
  simp only [add, hmember, grouped, addMember, hsimple, Stylesheet.mk.injEq, true_and]
  generalize className options.classScope e.path = name at hclass ⊢
  rw [classes_concat_of_some hclass]
  split_ifs with hmem
  · -- the class has a rule already, and the other rules stay as they are
    rw [Rule.addTo_of_mem (nodup_classes options expressions) hmem]
    refine List.map_congr_left fun other _ => ?_
    split_ifs with hother
    · subst hother
      rw [membersOf_concat_of_eq hclass, List.map_append, List.map_singleton, hproperty]
    · rw [membersOf_concat_of_ne (by simpa [hclass] using Ne.symm hother)]
  · have hothers : ∀ other ∈ classes options expressions, name ≠ other := by
      rintro other hother rfl
      exact hmem hother
    rw [Rule.addTo_of_notMem, List.map_append, List.map_singleton, membersOf_concat_of_eq hclass,
      membersOf_eq_nil hmem, List.nil_append, List.map_singleton, hproperty]
    · congr 1
      refine List.map_congr_left fun other hother => ?_
      rw [membersOf_concat_of_ne (by simpa [hclass] using hothers other hother)]
    · intro rule hrule
      obtain ⟨other, hother, rfl⟩ := List.mem_map.mp hrule
      exact Ne.symm (hothers other hother)

/-- Adding expressions one by one groups them. -/
theorem foldl_add (options : StylesheetOptions) (text : TokenExpression → String)
    (expressions : List TokenExpression) :
    (expressions.map fun e => ⟨e, text e⟩).foldl (add options) empty =
      grouped options text expressions := by
  induction expressions using List.reverseRecOn with
  | nil => rfl
  | append_singleton expressions e ih =>
      rw [List.map_append, List.foldl_append, ih, List.map_singleton, List.foldl_cons,
        List.foldl_nil]
      cases hmember : e.member with
      | none => exact add_grouped_of_none hmember
      | some key => exact add_grouped_of_some hmember

end Stylesheet

/-! ## Each expression once -/

section

variable {α β : Type} {p q : α → Bool}

/-- What satisfies one of two conditions that exclude each other. -/
theorem filter_append_filter_perm {xs : List α} (hexclude : ∀ x ∈ xs, p x = true → q x = false) :
    (xs.filter p ++ xs.filter q).Perm (xs.filter fun x => p x || q x) := by
  induction xs with
  | nil => exact .refl _
  | cons x xs ih =>
      obtain ⟨hx, hxs⟩ := List.forall_mem_cons.mp hexclude
      have hrest := ih hxs
      cases hp : p x with
      | true => simpa [List.filter_cons, hp, hx hp] using hrest.cons x
      | false =>
          cases hq : q x with
          | true => simpa [List.filter_cons, hp, hq] using List.perm_middle.trans (hrest.cons x)
          | false => simpa [List.filter_cons, hp, hq] using hrest

/-- The groups of different names hold what has one of the names. -/
theorem flatMap_filter_perm [DecidableEq β] {f : α → Option β} {names : List β}
    (hnodup : names.Nodup) (xs : List α) :
    (names.flatMap fun name => xs.filter fun x => decide (f x = some name)).Perm
      (xs.filter fun x => (f x).any (· ∈ names)) := by
  induction names with
  | nil => simp
  | cons name names ih =>
      obtain ⟨hnew, hnodup⟩ := List.nodup_cons.mp hnodup
      have hexclude : ∀ x ∈ xs, decide (f x = some name) = true →
          (f x).any (· ∈ names) = false := by
        intro x _ hx
        simp [of_decide_eq_true hx, hnew]
      rw [List.flatMap_cons]
      refine ((ih hnodup).append_left _).trans ((filter_append_filter_perm hexclude).trans ?_)
      refine .of_eq (List.filter_congr fun x _ => ?_)
      cases f x <;> simp

end

namespace Stylesheet

/-- Every expression is a simple one or a member of one class. -/
theorem simple_append_flatMap_membersOf_perm (options : StylesheetOptions)
    (expressions : List TokenExpression) :
    (simple expressions ++
      (classes options expressions).flatMap (membersOf options expressions)).Perm expressions := by
  have hmembers : ((classes options expressions).flatMap (membersOf options expressions)).Perm
      (expressions.filter fun e => !e.member.isNone) := by
    refine (flatMap_filter_perm (nodup_classes options expressions) expressions).trans ?_
    refine .of_eq (List.filter_congr fun e he => ?_)
    cases hclass : e.class? options with
    | none => simpa [TokenExpression.class?] using hclass
    | some name =>
        have hmem : name ∈ classes options expressions := mem_classes.mpr ⟨e, he, hclass⟩
        have hmember : e.member.isNone = false := by
          cases hnone : e.member with
          | none => simp [TokenExpression.class?, hnone] at hclass
          | some key => rfl
        simp [hmem, hmember]
  exact (hmembers.append_left _).trans (List.filter_append_perm _ expressions)

end Stylesheet

/-! ## The generated file -/

/-- A style sheet, written from expressions with the texts of their values: a line for every
simple expression, and for every class a rule with a line for each of its members. -/
def stylesheetText (options : StylesheetOptions) (text : TokenExpression → String)
    (expressions : List TokenExpression) : String :=
  ":root \x7b\n" ++
    String.join ((Stylesheet.simple expressions).map fun e =>
      "    --" ++ Stylesheet.propertyOf options e ++ ": " ++ text e ++ ";\n") ++
    "\x7d\n" ++
    String.join ((Stylesheet.classes options expressions).map fun name =>
      "\n." ++ name ++ " \x7b\n" ++
        String.join ((Stylesheet.membersOf options expressions name).map fun e =>
          "    " ++ Stylesheet.propertyOf options e ++ ": " ++ text e ++ ";\n") ++
        "\x7d\n")

theorem Stylesheet.text_grouped (options : StylesheetOptions) (text : TokenExpression → String)
    (expressions : List TokenExpression) :
    (grouped options text expressions).text = stylesheetText options text expressions := by
  have hmark : "    " ++ "--" = "    --" := rfl
  simp only [Stylesheet.text, grouped, stylesheetText, List.map_map, Function.comp_def, ruleText,
    line, hmark, String.append_empty]

namespace TokenSet

variable {tokens : TokenSet} {value : TokenExpression → Evaluated}

theorem result_resolve_eq_ok_iff {e : TokenExpression} {resolved : ResolvedExpression} :
    (tokens.resolve e).result = .ok resolved ↔
      ∃ v, (evaluate tokens.table e.toExpression).result = .ok v ∧ resolved = ⟨e, v.display⟩ := by
  rw [resolve, Traced.result_bind_eq_ok]
  simp only [Traced.result_pure, Except.ok.injEq, eq_comm]

theorem result_resolve_eq_error_iff {e : TokenExpression} {error : EvalError} :
    (tokens.resolve e).result = .error error ↔
      (evaluate tokens.table e.toExpression).result = .error error := by
  rw [resolve, Traced.result_bind_eq_error]
  simp

/-- Expressions that all have values are resolved to these. -/
theorem result_resolved_eq_ok
    (h : ∀ e ∈ tokens.expressions,
      (evaluate tokens.table e.toExpression).result = .ok (value e)) :
    tokens.resolved.result = .ok (tokens.expressions.map fun e => ⟨e, (value e).display⟩) := by
  rw [resolved, Traced.result_mapM_eq_ok_iff, List.forall₂_map_right_iff, List.forall₂_same]
  exact fun e he => result_resolve_eq_ok_iff.mpr ⟨value e, h e he, rfl⟩

/-- The first expression without a value is the one that is reported. -/
theorem result_resolved_eq_error_iff {error : EvalError} :
    tokens.resolved.result = .error error ↔
      ∃ before e after, tokens.expressions = before ++ e :: after ∧
        (∀ e' ∈ before, ∃ v, (evaluate tokens.table e'.toExpression).result = .ok v) ∧
        (evaluate tokens.table e.toExpression).result = .error error := by
  have hresolves : ∀ e, (∃ resolved, (tokens.resolve e).result = .ok resolved) ↔
      ∃ v, (evaluate tokens.table e.toExpression).result = .ok v := by
    intro e
    simp only [result_resolve_eq_ok_iff]
    exact ⟨fun ⟨_, v, hv, _⟩ => ⟨v, hv⟩, fun ⟨v, hv⟩ => ⟨_, v, hv, rfl⟩⟩
  rw [resolved, Traced.result_mapM_eq_error_iff]
  simp only [hresolves, result_resolve_eq_error_iff]

end TokenSet

namespace Platform

variable {options : StylesheetOptions} {tokens : TokenSet}

/-- Only resolving the values can fail. -/
theorem result_run_css_eq_error_iff {error : EvalError} :
    ((css options).run tokens).result = .error error ↔ tokens.resolved.result = .error error := by
  constructor
  · intro h
    rcases Traced.result_bind_eq_error.mp h with hsheet | ⟨_, -, hpure⟩
    · rcases Traced.result_bind_eq_error.mp hsheet with hresolved | ⟨_, -, hreport⟩
      · exact hresolved
      · cases hreport
    · cases hpure
  · intro h
    exact Traced.result_bind_eq_error.mpr (Or.inl (Traced.result_bind_eq_error.mpr (Or.inl h)))

/-- If every expression has a value, the file is the style sheet of these values. -/
theorem result_run_css_eq_ok {value : TokenExpression → Evaluated}
    (h : ∀ e ∈ tokens.expressions,
      (evaluate tokens.table e.toExpression).result = .ok (value e)) :
    ((css options).run tokens).result =
      .ok [⟨options.fileName,
        stylesheetText options (fun e => (value e).display) tokens.expressions⟩] := by
  rw [← Stylesheet.text_grouped, ← Stylesheet.foldl_add]
  refine Traced.result_bind_eq_ok.mpr ⟨_, ?_, rfl⟩
  refine Traced.result_bind_eq_ok.mpr ⟨_, TokenSet.result_resolved_eq_ok h, ?_⟩
  exact Traced.result_bind_eq_ok.mpr ⟨(), rfl, rfl⟩

end Platform

/-- **The style sheet holds every value exactly once, grouped stably.** The platform fails
exactly when an expression has no value, with the error of the first one. Otherwise it
generates one file: the variables of the simple expressions, and a rule for every class, the
classes in the order of their first members, lines in document order. No class has two rules,
and an expression is either simple or a member of a single class, so every value is declared
once. -/
theorem run_css_declares_each_once (options : StylesheetOptions) (tokens : TokenSet) :
    (∀ error, ((Platform.css options).run tokens).result = .error error ↔
      ∃ before e after, tokens.expressions = before ++ e :: after ∧
        (∀ e' ∈ before, ∃ v, (evaluate tokens.table e'.toExpression).result = .ok v) ∧
        (evaluate tokens.table e.toExpression).result = .error error) ∧
    (∀ value : TokenExpression → Evaluated,
      (∀ e ∈ tokens.expressions,
        (evaluate tokens.table e.toExpression).result = .ok (value e)) →
      ((Platform.css options).run tokens).result =
        .ok [⟨options.fileName,
          stylesheetText options (fun e => (value e).display) tokens.expressions⟩]) ∧
    (Stylesheet.classes options tokens.expressions).Nodup ∧
    (Stylesheet.simple tokens.expressions ++
      (Stylesheet.classes options tokens.expressions).flatMap
        (Stylesheet.membersOf options tokens.expressions)).Perm tokens.expressions := by
  refine ⟨fun error => ?_, fun value h => Platform.result_run_css_eq_ok h,
    Stylesheet.nodup_classes options tokens.expressions,
    Stylesheet.simple_append_flatMap_membersOf_perm options tokens.expressions⟩
  rw [Platform.result_run_css_eq_error_iff, TokenSet.result_resolved_eq_error_iff]

/-- Members of two classes with a simple token in between; two tokens share a class. -/
def interleavedTree : TokenTree :=
  .group "text" (.token "body" ⟨.composite [("fontSize", "{size} * 2")], "typography"⟩ .nil)
    (.token "title" ⟨.composite [("fontSize", "{size} * 4"), ("fontWeight", "bold")], "typography"⟩
      (.token "size" ⟨.scalar "8px", "dimension"⟩
        (.token "text-body" ⟨.composite [("lineHeight", "1.50")], "typography"⟩ .nil)))

/-- The values of `interleavedTree` as expressions, with the table they need. -/
def interleavedTokens : TokenSet where
  tree := interleavedTree
  expressions := (interleavedTree.values "").map PlacedValue.expression
  table := ⟨[("{size}", "8px")]⟩
  formatters := .standard

/-- The values of these expressions. -/
def interleavedValue (e : TokenExpression) : Evaluated :=
  match (evaluate interleavedTokens.table e.toExpression).result with
  | .ok value => value
  | .error _ => .text ""

theorem run_css_declares_each_once_interleaved :
    (∀ e ∈ interleavedTokens.expressions,
      (evaluate interleavedTokens.table e.toExpression).result = .ok (interleavedValue e)) ∧
      ((Platform.css {}).run interleavedTokens).result =
        .ok [⟨"design-tokens.css",
          ":root \x7b\n    --size: 8px;\n\x7d\n" ++
            "\n.text-body \x7b\n    font-size: 16px;\n    line-height: 1.5;\n\x7d\n" ++
            "\n.title \x7b\n    font-size: 32px;\n    font-weight: bold;\n\x7d\n"⟩] := by
  have hvalues : ∀ e ∈ interleavedTokens.expressions,
      (evaluate interleavedTokens.table e.toExpression).result = .ok (interleavedValue e) := by
    decide +kernel
  obtain ⟨-, hrun, -⟩ := run_css_declares_each_once {} interleavedTokens
  refine ⟨hvalues, (hrun interleavedValue hvalues).trans ?_⟩
  decide +kernel

end DesignTokens
