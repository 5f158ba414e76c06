import DesignTokens.Tokens.Basic
import Mathlib.Tactic.SplitIfs

set_option autoImplicit false

/-! # Loading token sets

`TokenSet.load` has two ways to fail, a value that is not an expression and a reference
without an answer (`TokenSet.result_load_eq_ok_iff`). With the standard formatter alone, a
key has a text exactly when it finds a single expression and that expression has a value
(`TokenSet.result_valueFor_eq_ok_iff`).
-/

namespace DesignTokens

namespace TokenSet

theorem result_load_eq_ok_iff {tree : TokenTree} {formatters : FormatterRegistry}
    {tokens : TokenSet} :
    (load tree formatters).result = .ok tokens ↔
      ∃ expressions table, (tree.flatten "").result = .ok expressions ∧
        (LookupTable.build (expressions.map TokenExpression.toExpression)
          tree.source).outcome.result = .ok table ∧
        tokens = ⟨tree, expressions, table, formatters⟩ := by
  rw [load, Traced.result_bind_eq_ok]
  constructor
  · rintro ⟨expressions, hflatten, h⟩
    obtain ⟨table, htable, h⟩ := Traced.result_bind_eq_ok.mp h
    refine ⟨expressions, table, Traced.result_mapError_eq_ok.mp hflatten,
      Traced.result_mapError_eq_ok.mp htable, ?_⟩
    cases h
    rfl
  · rintro ⟨expressions, table, hflatten, htable, rfl⟩
    refine ⟨expressions, Traced.result_mapError_eq_ok.mpr hflatten, ?_⟩
    exact Traced.result_bind_eq_ok.mpr ⟨table, Traced.result_mapError_eq_ok.mpr htable, rfl⟩

theorem formatters_of_load {tree : TokenTree} {formatters : FormatterRegistry}
    {tokens : TokenSet} (hload : (load tree formatters).result = .ok tokens) :
    tokens.formatters = formatters := by
  obtain ⟨expressions, table, -, -, rfl⟩ := result_load_eq_ok_iff.mp hload
  rfl

end TokenSet

theorem FormatterRegistry.get?_standard (tokenType : String) :
    standard.get? tokenType = if tokenType = defaultType then some .single else none := by
  rw [standard, get?_register, get?_empty]
  by_cases h : tokenType = defaultType
  · rw [if_pos h, h]
    rfl
  · rw [if_neg h, if_neg]
    exact Ne.symm h

namespace TokenSet

variable {tokens : TokenSet} {key : String}

/-- The formatter for single values applies only to a single expression. -/
theorem select_eq_ok_iff (hstandard : tokens.formatters = .standard) {selection : Selection} :
    tokens.select key = .ok selection ↔
      ∃ e, tokens.matching key = [e] ∧ selection = ⟨.single, [e]⟩ := by
  have htype : ∀ own, (if tokens.formatters.contains own then own else defaultType) =
      defaultType := by
    intro own
    rw [hstandard, FormatterRegistry.contains, FormatterRegistry.get?_standard]
    by_cases h : own = defaultType <;> simp [h]
  have hget : tokens.formatters.get? defaultType = some .single := by
    rw [hstandard, FormatterRegistry.get?_standard, if_pos rfl]
  unfold select
  simp only [htype, hget]
  generalize tokens.matching key = found
  constructor
  · intro h
    split at h
    · cases h
    · rename_i own htypes
      split_ifs at h with hmany
      -- some expression was found, because it has a type
      match found, htypes, hmany, h with
      | [], htypes, _, _ => cases htypes
      | [e], _, _, h =>
          cases h
          exact ⟨e, rfl, rfl⟩
      | _ :: _ :: found, _, hmany, _ => exact absurd ⟨trivial, by simp⟩ hmany
    · cases h
  · rintro ⟨e, rfl, rfl⟩
    rfl

/-- A formatter that was chosen is called for what was found. -/
theorem valueForWithin_of_select {formatter : Formatter} {given : List TokenExpression}
    (h : tokens.select key = .ok ⟨formatter, given⟩) (nesting : Nat) :
    tokens.valueForWithin (nesting + 1) key = (do
      Traced.report (.dispatching key formatter.tokenType given.length)
      formatter.format
        ⟨tokens.tree, tokens.expressions, tokens.table, tokens.valueForWithin nesting⟩ given) := by
  rw [valueForWithin, h]
  rfl

/-- With the standard formatter a key has a text exactly when it finds one expression, and
that has a value. -/
theorem result_valueFor_eq_ok_iff (hstandard : tokens.formatters = .standard) {text : String} :
    (tokens.valueFor key).result = .ok text ↔
      ∃ e value, tokens.matching key = [e] ∧
        (evaluate tokens.table e.toExpression).result = .ok value ∧ value.lengthText = text := by
  rw [valueFor, valueForWithin, Traced.result_bind_eq_ok]
  constructor
  · rintro ⟨selection, hselect, h⟩
    obtain ⟨e, hfound, rfl⟩ := (select_eq_ok_iff hstandard).mp hselect
    obtain ⟨_, -, h⟩ := Traced.result_bind_eq_ok.mp h
    obtain ⟨value, hvalue, h⟩ := Traced.result_bind_eq_ok.mp h
    refine ⟨e, value, hfound, Traced.result_mapError_eq_ok.mp hvalue, ?_⟩
    cases h
    rfl
  · rintro ⟨e, value, hfound, hvalue, rfl⟩
    refine ⟨⟨.single, [e]⟩, (select_eq_ok_iff hstandard).mpr ⟨e, hfound, rfl⟩, ?_⟩
    refine Traced.result_bind_eq_ok.mpr ⟨(), rfl, ?_⟩
    exact Traced.result_bind_eq_ok.mpr ⟨value, Traced.result_mapError_eq_ok.mpr hvalue, rfl⟩

/-- With the standard formatter, a key that finds a single expression fails only with it. -/
theorem result_valueFor_eq_error_iff (hstandard : tokens.formatters = .standard)
    {e : TokenExpression} (hfound : tokens.matching key = [e]) {error : TokenError} :
    (tokens.valueFor key).result = .error error ↔
      ∃ cause, (evaluate tokens.table e.toExpression).result = .error cause ∧
        error = .evaluation cause := by
  have hselect : tokens.select key = .ok ⟨.single, [e]⟩ :=
    (select_eq_ok_iff hstandard).mpr ⟨e, hfound, rfl⟩
  rw [valueFor, valueForWithin_of_select hselect, Traced.result_bind, Traced.result_report]
  show (Formatter.evaluateFor _ e >>= fun value => pure value.lengthText).result = _ ↔ _
  rw [Traced.result_bind, Formatter.evaluateFor, Traced.result_mapError]
  cases (evaluate tokens.table e.toExpression).result with
  | ok value => simp [Except.mapError, Except.bind]
  | error cause => simp [Except.mapError, Except.bind, eq_comm]

end TokenSet

end DesignTokens
