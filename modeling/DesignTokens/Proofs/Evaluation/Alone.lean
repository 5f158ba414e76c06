import DesignTokens.Proofs.Evaluation.Agreement
import DesignTokens.Proofs.Lookup.Questions

set_option autoImplicit false

/-! # An expression alone

A lookup table is built for many expressions at once. Built for one of them alone, it holds
less and was filled in another order, but the expression evaluates the same
(`evaluate_alone`).

A source is any function of paths here, with infinitely many answers if it likes. Two tables
that are filled from it agree on what an expression of both reaches
(`LookupTable.Fills.get?_eq`). That filling for one expression ends does not follow from the
number of answers, but from the table that was filled for all: it is a source itself, with
finitely many answers, and has all that the expression needs (`LookupTable.asSource`).
-/

namespace DesignTokens

section

variable {answers answers' : String → String → Prop}

theorem Filling.Step.mono (hmono : ∀ path raw, answers path raw → answers' path raw)
    {s s' : Filling} (h : Step answers s s') : Step answers' s s' := by
  cases h with
  | skip hstored => exact .skip hstored
  | store hnew hanswer hparse => exact .store hnew (hmono _ _ hanswer) hparse

end

namespace LookupTable

variable {answers answers' : String → String → Prop} {expressions expressions' : List Expression}
  {table table' : LookupTable} {e : Expression} {r path raw : String}

/-! ## Tables from one source agree -/

theorem Fills.mono (hmono : ∀ path raw, answers path raw → answers' path raw)
    (h : Fills answers expressions table) : Fills answers' expressions table :=
  Relation.ReflTransGen.mono (fun _ _ hstep => Filling.Step.mono hmono hstep) _ _ h

/-- Stored values are answers. -/
theorem Fills.answered_of_mem (h : Fills answers expressions table)
    (hentry : (r, raw) ∈ table.entries) : answers (stripBraces r) raw :=
  (Filling.Run.inOrder h (Filling.start_inOrder expressions)).answered (r, raw) hentry

theorem Fills.answered (h : Fills answers expressions table) (hget : table.get? r = some raw) :
    answers (stripBraces r) raw :=
  h.answered_of_mem (mem_of_lookup_eq_some hget)

section

variable (hanswers : Relator.RightUnique answers)

include hanswers

/-- A reference that an expression of both tables reaches has the same value in both. -/
theorem Fills.get?_eq (h : Fills answers expressions table) (he : e ∈ expressions)
    (h' : Fills answers expressions' table') (he' : e ∈ expressions')
    (hr : table.Reaches e r) (hr' : table'.Reaches e r) : table.get? r = table'.get? r := by
  obtain ⟨raw, -, hget, -⟩ := h.isReadable he hr
  obtain ⟨raw', -, hget', -⟩ := h'.isReadable he' hr'
  rw [hget, hget', hanswers (h.answered hget) (h'.answered hget')]

/-- An expression of both tables reaches the same references in both. -/
theorem Fills.reaches (h : Fills answers expressions table) (he : e ∈ expressions)
    (h' : Fills answers expressions' table') (he' : e ∈ expressions')
    (hr : table.Reaches e r) : table'.Reaches e r := by
  obtain ⟨first, hmem, hpath⟩ := hr
  induction hpath with
  | refl => exact reaches_of_mem hmem
  | tail hbefore hrefers ih =>
      have hsame := h.get?_eq hanswers he h' he' ⟨first, hmem, hbefore⟩ ih
      rw [Refers, hsame] at hrefers
      exact table'.isClosed_reaches e ih hrefers

theorem Fills.evaluate_eq (h : Fills answers expressions table) (he : e ∈ expressions)
    (h' : Fills answers expressions' table') (he' : e ∈ expressions') :
    evaluate table e = evaluate table' e :=
  evaluate_of_reaches fun _ hr =>
    h.get?_eq hanswers he h' he' hr (h.reaches hanswers he h' he' hr)

end

/-! ## The table of one expression -/

/-- The source that answers with the values of a table. -/
def asSource (table : LookupTable) : Source :=
  .ofList (table.entries.map fun entry => (stripBraces entry.1, entry.2))

/-- A table that was filled answers as its source does. -/
theorem Fills.answers_of_asSource (h : Fills answers expressions table)
    (hanswer : table.asSource.Answers path raw) : answers path raw := by
  obtain ⟨⟨reference, value⟩, hentry, hsame⟩ :=
    List.mem_map.mp (mem_of_lookup_eq_some hanswer)
  cases hsame
  exact h.answered_of_mem hentry

/-- A table answers for all references that it holds. -/
theorem exists_answer_asSource (hget : table.get? r = some raw) :
    ∃ raw', table.asSource.Answers (stripBraces r) raw' := by
  refine Option.isSome_iff_exists.mp (lookup_isSome_iff.mpr ?_)
  exact List.mem_map.mpr ⟨_, List.mem_map_of_mem (mem_of_lookup_eq_some hget), rfl⟩

section

variable (hanswers : Relator.RightUnique answers)

include hanswers

/-- What one of the expressions needs of the table as a source, it reaches in the table. -/
theorem Fills.reaches_of_needs (h : Fills answers expressions table) (he : e ∈ expressions)
    (hneeds : table.asSource.Needs [e] r) : table.Reaches e r := by
  induction hneeds with
  | own he' hr =>
      rw [List.mem_singleton.mp he'] at hr
      exact reaches_of_mem hr
  | @nested r raw r' e' _ hanswer hparse hr' ih =>
      -- the answer is the stored value, so the reference refers to what the answer holds
      obtain ⟨stored, -, hget, -⟩ := h.isReadable he ih
      rw [hanswers (h.answered hget) (h.answers_of_asSource hanswer)] at hget
      exact table.isClosed_reaches e ih ⟨raw, e', hget, hparse, hr'⟩

/-- Filling a table for one of the expressions can end. -/
theorem Fills.exists_alone (h : Fills answers expressions table) (he : e ∈ expressions) :
    ∃ table', Fills answers [e] table' := by
  have hanswered : ∀ r, table.asSource.Needs [e] r → table.asSource.IsAnswered r := by
    intro r hneeds
    obtain ⟨raw, e', hget, hparse⟩ := h.isReadable he (h.reaches_of_needs hanswers he hneeds)
    obtain ⟨raw', hanswer⟩ := exists_answer_asSource hget
    rw [← hanswers (h.answered hget) (h.answers_of_asSource hanswer)] at hanswer
    exact ⟨raw, e', hanswer, hparse⟩
  obtain ⟨table', hbuild⟩ := exists_build_iff.mpr hanswered
  exact ⟨table', (build_eq_ok_iff.mp hbuild).mono fun _ _ => h.answers_of_asSource⟩

end

end LookupTable

/-! ## Ends of building -/

namespace Filling

variable {replies : String → Option String → Prop} {s s' : Filling} {asked : List String}
  {result : Except EvalError LookupTable}

/-- A run of the queue that stops is an end of building. -/
theorem Ends.of_run (hrun : Run (fun path raw => replies path (some raw)) s s')
    (hstop : Stops replies s' asked result) : ∃ asked, Ends replies s asked result := by
  induction hrun using Relation.ReflTransGen.head_induction_on with
  | refl => exact ⟨asked, .stop hstop⟩
  | head hstep _ ih =>
      obtain ⟨asked, hends⟩ := ih
      cases hstep with
      | skip hstored => exact ⟨asked, .skip hstored hends⟩
      | store hnew hanswer hparse => exact ⟨_, .store hnew hanswer hparse hends⟩

/-- Building ends with a table exactly when filling does. -/
theorem exists_ends_ok_iff {expressions : List Expression} {table : LookupTable} :
    (∃ asked, Ends replies (.start expressions) asked (.ok table)) ↔
      LookupTable.Fills (fun path raw => replies path (some raw)) expressions table := by
  constructor
  · rintro ⟨asked, hends⟩
    obtain ⟨s', lastAsked, hrun, hstop, -⟩ := hends.exists_stops
    cases hstop with
    | done => exact hrun
  · intro hfills
    exact Ends.of_run hfills .done

end Filling

/-- **A value does not depend on what else shares the table.** If `build` gives a table for some
expressions, it gives one for each of them alone, and the expression has the same evaluation
against both, with the same events and the same result, be it a value or an error. The same
holds of building from any function of paths, which may answer infinitely many of them. -/
theorem evaluate_alone {expressions : List Expression} {e : Expression} (he : e ∈ expressions) :
    (∀ source table, (LookupTable.build expressions source).outcome.result = .ok table →
      ∃ table', (LookupTable.build [e] source).outcome.result = .ok table' ∧
        evaluate table' e = evaluate table e) ∧
    ∀ (answer : String → Option String) asked table,
      Filling.Ends (fun path reply => answer path = reply) (.start expressions) asked
        (.ok table) →
      ∃ asked' table',
        Filling.Ends (fun path reply => answer path = reply) (.start [e]) asked' (.ok table') ∧
        evaluate table' e = evaluate table e := by
  have hanswers : ∀ answer : String → Option String,
      Relator.RightUnique fun path raw => answer path = some raw := by
    intro answer path raw raw' hraw hraw'
    exact Option.some.inj (hraw.symm.trans hraw')
  constructor
  · intro source table hbuild
    have hfills := LookupTable.build_eq_ok_iff.mp hbuild
    obtain ⟨table', halone⟩ := hfills.exists_alone (hanswers source.raw?) he
    refine ⟨table', LookupTable.build_eq_ok_iff.mpr halone, ?_⟩
    exact halone.evaluate_eq (hanswers source.raw?) List.mem_cons_self hfills he
  · intro answer asked table hends
    have hfills := Filling.exists_ends_ok_iff.mp ⟨asked, hends⟩
    obtain ⟨table', halone⟩ := hfills.exists_alone (hanswers answer) he
    obtain ⟨asked', hends'⟩ := Filling.exists_ends_ok_iff.mpr halone
    refine ⟨asked', table', hends', ?_⟩
    exact halone.evaluate_eq (hanswers answer) List.mem_cons_self hfills he

/-- Answers every path: two with a text of their own, the others with themselves. -/
def echo (path : String) : Option String :=
  if path = "a" then some "{b} + 1px" else if path = "c" then some "{a} * {bold}" else some path

/-- The answers of `echo` to four paths. -/
def echoSource : Source :=
  .ofList [("a", "{b} + 1px"), ("b", "b"), ("bold", "bold"), ("c", "{a} * {bold}")]

/-- What building finds for `{c}` and `{a}`. -/
def echoTable : LookupTable :=
  ⟨[("{c}", "{a} * {bold}"), ("{a}", "{b} + 1px"), ("{bold}", "bold"), ("{b}", "b")]⟩

/-- The value of `{a}` does not depend on `{c}`, for which more is stored, and stored before. -/
theorem evaluate_alone_echo :
    Expression.ofReference "{a}" ∈
        [Expression.ofReference "{c}", Expression.ofReference "{a}"] ∧
      (LookupTable.build [.ofReference "{c}", .ofReference "{a}"] echoSource).outcome.result =
        .ok echoTable ∧
      (evaluate echoTable (.ofReference "{a}")).result = .ok (.text "b+1") ∧
      (∃ table', (LookupTable.build [.ofReference "{a}"] echoSource).outcome.result = .ok table' ∧
        evaluate table' (.ofReference "{a}") = evaluate echoTable (.ofReference "{a}")) ∧
      ∃ asked, Filling.Ends (fun path reply => echo path = reply)
          (.start [.ofReference "{c}", .ofReference "{a}"]) asked (.ok echoTable) ∧
        ∃ asked' table', Filling.Ends (fun path reply => echo path = reply)
            (.start [.ofReference "{a}"]) asked' (.ok table') ∧
          evaluate table' (.ofReference "{a}") = evaluate echoTable (.ofReference "{a}") := by
  have hparseC : Expression.parse "{a} * {bold}" =
      .ok ⟨"{a}*{bold}", [.reference "{a}", .operator .multiply, .reference "{bold}"], true⟩ := by
    decide +kernel
  have hparseA : Expression.parse "{b} + 1px" =
      .ok ⟨"{b}+1px", [.reference "{b}", .operator .add,
        .number ⟨1, 0, by decide, by decide⟩ "px" "1px"], true⟩ := by
    decide +kernel
  have hparseBold : Expression.parse "bold" = .ok ⟨"bold", [.verbatim "bold"], false⟩ := by
    decide +kernel
  have hparseB : Expression.parse "b" = .ok ⟨"b", [.verbatim "b"], false⟩ := by decide +kernel
  have hends : ∀ answer : String → Option String, answer "c" = some "{a} * {bold}" →
      answer "a" = some "{b} + 1px" → answer "bold" = some "bold" → answer "b" = some "b" →
      ∃ asked, Filling.Ends (fun path reply => answer path = reply)
        (.start [.ofReference "{c}", .ofReference "{a}"]) asked (.ok echoTable) := by
    intro answer hc ha hbold hb
    refine ⟨["c", "a", "bold", "b"], .store (by decide) hc hparseC ?_⟩
    refine .store (by decide) ha hparseA ?_
    refine .skip (by decide) (.store (by decide) hbold hparseBold ?_)
    exact .store (by decide) hb hparseB (.stop .done)
  have hmem : Expression.ofReference "{a}" ∈
      [Expression.ofReference "{c}", Expression.ofReference "{a}"] := by decide
  obtain ⟨hsource, hanswer⟩ := evaluate_alone hmem
  have hbuild : (LookupTable.build [.ofReference "{c}", .ofReference "{a}"]
      echoSource).outcome.result = .ok echoTable := by
    obtain ⟨asked, hends⟩ :=
      hends echoSource.raw? (by decide) (by decide) (by decide) (by decide)
    exact LookupTable.build_eq_ok_iff.mpr (Filling.exists_ends_ok_iff.mp ⟨asked, hends⟩)
  obtain ⟨asked, hecho⟩ := hends echo (by decide) (by decide) (by decide) (by decide)
  have hvalue : (evaluate echoTable (.ofReference "{a}")).result = .ok (.text "b+1") := by
    decide +kernel
  exact ⟨hmem, hbuild, hvalue, hsource _ _ hbuild, asked, hecho, hanswer _ _ _ hecho⟩

end DesignTokens
