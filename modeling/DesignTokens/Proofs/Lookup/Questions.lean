import DesignTokens.Proofs.Expression.Reference
import DesignTokens.Proofs.FirstAppearances
import DesignTokens.Proofs.Lookup.Least

set_option autoImplicit false

/-! # Questions asked of a source

A source is asked for references, in the words of their paths. `Filling.Ends` is building
against any relation of paths and replies, with the paths that are asked and the result: a
source may have infinitely many answers here, and may reply differently at different times.
`LookupTable.ends_build` says that `build` ends this way.

The references that were met are those of the expressions, then those in the first answer,
then those in the second (`Filling.met`). The invariant of the queue is `Filling.InOrder`:
the stored references and behind them those that wait are the references that were met, when
only first appearances count. So the next question is the first one that was not yet asked,
and `build_asks_breadth_first` reads the order and the number of questions off it.

Questions are distinct as references. Two of them have the same path only when one was
written without braces, which parsing never does (`build_asks_path_again`).
-/

namespace DesignTokens

namespace Filling

/-! ## Building with replies -/

/-- What ends building, with the paths that are asked for at that point and the result;
`replies path reply` says that the source may reply to a path this way. -/
inductive Stops (replies : String → Option String → Prop) :
    Filling → List String → Except EvalError LookupTable → Prop
  | done {table : LookupTable} : Stops replies ⟨table, []⟩ [] (.ok table)
  | missing {table : LookupTable} {reference : String} {pending : List String}
      (hnew : table.contains reference = false) (hreply : replies (stripBraces reference) none) :
      Stops replies ⟨table, reference :: pending⟩ [stripBraces reference]
        (.error (.referenceNotFound reference))
  | unreadable {table : LookupTable} {reference raw : String} {pending : List String}
      {cause : ParseError} (hnew : table.contains reference = false)
      (hreply : replies (stripBraces reference) (some raw))
      (hparse : Expression.parse raw = .error cause) :
      Stops replies ⟨table, reference :: pending⟩ [stripBraces reference]
        (.error (.unreadable cause))

/-- Building from here on asks for these paths, in this order, and ends with this result. -/
inductive Ends (replies : String → Option String → Prop) :
    Filling → List String → Except EvalError LookupTable → Prop
  | stop {s : Filling} {asked : List String} {result : Except EvalError LookupTable}
      (hstop : Stops replies s asked result) : Ends replies s asked result
  | skip {table : LookupTable} {reference : String} {pending asked : List String}
      {result : Except EvalError LookupTable} (hstored : table.contains reference = true)
      (hrest : Ends replies ⟨table, pending⟩ asked result) :
      Ends replies ⟨table, reference :: pending⟩ asked result
  | store {table : LookupTable} {reference raw : String} {pending asked : List String}
      {e : Expression} {result : Except EvalError LookupTable}
      (hnew : table.contains reference = false)
      (hreply : replies (stripBraces reference) (some raw))
      (hparse : Expression.parse raw = .ok e)
      (hrest : Ends replies
        ⟨table.insert reference raw, pending ++ e.references.filter fun r => !table.contains r⟩
        asked result) :
      Ends replies ⟨table, reference :: pending⟩ (stripBraces reference :: asked) result

variable {replies : String → Option String → Prop} {s : Filling} {asked : List String}
  {result : Except EvalError LookupTable}

/-- Before the end, the queue runs and every stored reference was asked for. -/
theorem Ends.exists_stops (h : Ends replies s asked result) :
    ∃ s' lastAsked, Run (fun path raw => replies path (some raw)) s s' ∧
      Stops replies s' lastAsked result ∧
      s.table.stored.map stripBraces ++ asked =
        s'.table.stored.map stripBraces ++ lastAsked := by
  induction h with
  | stop hstop => exact ⟨_, _, .refl, hstop, rfl⟩
  | skip hstored _ ih =>
      obtain ⟨s', lastAsked, hrun, hstop, hasked⟩ := ih
      exact ⟨s', lastAsked, .head (.skip hstored) hrun, hstop, hasked⟩
  | @store table reference raw pending asked e result hnew hreply hparse _ ih =>
      obtain ⟨s', lastAsked, hrun, hstop, hasked⟩ := ih
      refine ⟨s', lastAsked, .head (.store hnew hreply hparse) hrun, hstop, ?_⟩
      rw [← hasked]
      simp [LookupTable.stored, LookupTable.insert]

/-! What comes first in the queue decides how building goes on, if the same question always
gets the same reply. -/

section

variable {table : LookupTable} {reference raw : String} {pending : List String}

theorem Ends.of_stored (h : Ends replies ⟨table, reference :: pending⟩ asked result)
    (hstored : table.contains reference = true) : Ends replies ⟨table, pending⟩ asked result := by
  have hnot : table.contains reference ≠ false := by simp [hstored]
  cases h with
  | stop hstop =>
      cases hstop with
      | missing hnew => exact absurd hnew hnot
      | unreadable hnew => exact absurd hnew hnot
  | skip _ hrest => exact hrest
  | store hnew => exact absurd hnew hnot

theorem Ends.of_missing (hreplies : ∀ {path reply reply'}, replies path reply →
    replies path reply' → reply = reply')
    (h : Ends replies ⟨table, reference :: pending⟩ asked result)
    (hnew : table.contains reference = false) (hreply : replies (stripBraces reference) none) :
    asked = [stripBraces reference] ∧ result = .error (.referenceNotFound reference) := by
  cases h with
  | stop hstop =>
      cases hstop with
      | missing => exact ⟨rfl, rfl⟩
      | unreadable _ hreply' => cases hreplies hreply hreply'
  | skip hstored => exact absurd hstored (by simp [hnew])
  | store _ hreply' => cases hreplies hreply hreply'

theorem Ends.of_unreadable (hreplies : ∀ {path reply reply'}, replies path reply →
    replies path reply' → reply = reply') {cause : ParseError}
    (h : Ends replies ⟨table, reference :: pending⟩ asked result)
    (hnew : table.contains reference = false)
    (hreply : replies (stripBraces reference) (some raw))
    (hparse : Expression.parse raw = .error cause) :
    asked = [stripBraces reference] ∧ result = .error (.unreadable cause) := by
  cases h with
  | stop hstop =>
      cases hstop with
      | missing _ hreply' => cases hreplies hreply hreply'
      | unreadable _ hreply' hparse' =>
          cases hreplies hreply hreply'
          cases hparse.symm.trans hparse'
          exact ⟨rfl, rfl⟩
  | skip hstored => exact absurd hstored (by simp [hnew])
  | store _ hreply' hparse' =>
      cases hreplies hreply hreply'
      cases hparse.symm.trans hparse'

theorem Ends.of_answer (hreplies : ∀ {path reply reply'}, replies path reply →
    replies path reply' → reply = reply') {e : Expression}
    (h : Ends replies ⟨table, reference :: pending⟩ asked result)
    (hnew : table.contains reference = false)
    (hreply : replies (stripBraces reference) (some raw))
    (hparse : Expression.parse raw = .ok e) :
    ∃ rest, asked = stripBraces reference :: rest ∧ Ends replies
      ⟨table.insert reference raw, pending ++ e.references.filter fun r => !table.contains r⟩
      rest result := by
  cases h with
  | stop hstop =>
      cases hstop with
      | missing _ hreply' => cases hreplies hreply hreply'
      | unreadable _ hreply' hparse' =>
          cases hreplies hreply hreply'
          cases hparse.symm.trans hparse'
  | skip hstored => exact absurd hstored (by simp [hnew])
  | store _ hreply' hparse' hrest =>
      cases hreplies hreply hreply'
      cases hparse.symm.trans hparse'
      exact ⟨_, rfl, hrest⟩

end

/-- If a path always gets the same reply, building can end in one way only. -/
theorem Ends.unique (hreplies : ∀ {path reply reply'}, replies path reply → replies path reply' →
    reply = reply') {asked' : List String} {result' : Except EvalError LookupTable}
    (h : Ends replies s asked result) (h' : Ends replies s asked' result') :
    asked = asked' ∧ result = result' := by
  induction h generalizing asked' with
  | stop hstop =>
      cases hstop with
      | done =>
          cases h' with
          | stop hstop' =>
              cases hstop'
              exact ⟨rfl, rfl⟩
      | missing hnew hreply =>
          obtain ⟨rfl, rfl⟩ := h'.of_missing @hreplies hnew hreply
          exact ⟨rfl, rfl⟩
      | unreadable hnew hreply hparse =>
          obtain ⟨rfl, rfl⟩ := h'.of_unreadable @hreplies hnew hreply hparse
          exact ⟨rfl, rfl⟩
  | skip hstored _ ih => exact ih (h'.of_stored hstored)
  | store hnew hreply hparse _ ih =>
      obtain ⟨rest, rfl, hrest⟩ := h'.of_answer @hreplies hnew hreply hparse
      obtain ⟨rfl, rfl⟩ := ih hrest
      exact ⟨rfl, rfl⟩

end Filling

/-- Building with a source ends with its result, after the paths it says it asked for. -/
theorem LookupTable.ends_buildFrom {source : Source} {references : List String}
    {table : LookupTable} {pending : List String}
    {known : ∀ r ∈ pending, r ∈ source.candidates references} :
    Filling.Ends (fun path reply => source.raw? path = reply) ⟨table, pending⟩
      (buildFrom source references table pending known).asked
      (buildFrom source references table pending known).outcome.result := by
  fun_induction buildFrom source references table pending known with
  | case1 table => exact .stop .done
  | case2 table reference pending known hstored _ ih => exact .skip hstored ih
  | case3 table reference pending known hnew path hraw =>
      exact .stop (.missing (Bool.eq_false_iff.mpr hnew) hraw)
  | case4 table reference pending known hnew path raw hraw cause hparse =>
      exact .stop (.unreadable (Bool.eq_false_iff.mpr hnew) hraw hparse)
  | case5 table reference pending known hnew path raw hraw e hparse found _ _ _ ih =>
      exact .store (Bool.eq_false_iff.mpr hnew) hraw hparse ih

theorem LookupTable.ends_build (source : Source) (expressions : List Expression) :
    Filling.Ends (fun path reply => source.raw? path = reply) (.start expressions)
      (build expressions source).asked (build expressions source).outcome.result :=
  ends_buildFrom

namespace Filling

/-! ## The order of discovery -/

/-- The references that were met, in the order of their discovery: those to begin with, and
those in the answers, one answer after the other. -/
def met (start : List String) (answered : List (String × String)) : List String :=
  start ++ answered.flatMap fun answer => referencesIn answer.2

theorem met_concat (start : List String) (answered : List (String × String))
    (answer : String × String) :
    met start (answered ++ [answer]) = met start answered ++ referencesIn answer.2 := by
  simp [met, List.append_assoc]

/-- Every question is the first reference that was met before and was not yet asked. -/
def AsksBreadthFirst (start : List String) (answered : List (String × String)) : Prop :=
  ∀ before answer, before ++ [answer] <+: answered →
    before.map Prod.fst ++ [answer.1] <+: (met start before).eraseDups

/-- Where the queue stands in the order of discovery: no stored reference is stored again,
and the stored references and those that wait are the ones that were met, as far as first
appearances go. -/
structure InOrder (answers : String → String → Prop) (start : List String) (s : Filling) :
    Prop where
  distinct : s.table.stored.Nodup
  answered : ∀ answer ∈ s.table.entries, answers (stripBraces answer.1) answer.2
  discovered : (s.table.stored ++ s.pending).eraseDups = (met start s.table.entries).eraseDups
  asked : AsksBreadthFirst start s.table.entries

variable {answers : String → String → Prop} {replies : String → Option String → Prop}
  {references : List String} {s s' : Filling} {result : Except EvalError LookupTable}

theorem start_inOrder (expressions : List Expression) :
    (start expressions).InOrder answers (expressions.flatMap Expression.references) where
  distinct := List.nodup_nil
  answered answer hanswer := by cases hanswer
  discovered := by simp [start, met, LookupTable.stored, LookupTable.empty]
  asked before answer hfront := by
    have hnil := List.prefix_nil.mp hfront
    simp at hnil

/-- The first reference that waits, if it is not stored, is the next question. -/
theorem InOrder.next {table : LookupTable} {reference : String} {pending : List String}
    (h : InOrder answers references ⟨table, reference :: pending⟩)
    (hnew : table.contains reference = false) :
    (table.stored ++ [reference]).Nodup ∧
      table.stored ++ [reference] <+: (met references table.entries).eraseDups := by
  have hnot : reference ∉ table.stored := by
    rw [← LookupTable.contains_iff_mem_stored, hnew]
    exact Bool.false_ne_true
  have hnodup : (table.stored ++ [reference]).Nodup := by
    rw [← List.concat_eq_append]
    exact h.distinct.concat hnot
  refine ⟨hnodup, ?_⟩
  have hfront := isPrefix_eraseDups_append hnodup pending
  have hdiscovered : (table.stored ++ reference :: pending).eraseDups =
      (met references table.entries).eraseDups := h.discovered
  rwa [List.append_assoc, List.singleton_append, hdiscovered] at hfront

/-- A turn of the queue keeps the order of discovery. -/
theorem Step.inOrder (hstep : Step answers s s') (h : s.InOrder answers references) :
    s'.InOrder answers references := by
  cases hstep with
  | @skip table reference pending hstored =>
      refine ⟨h.distinct, h.answered, ?_, h.asked⟩
      have hmem := LookupTable.contains_iff_mem_stored.mp hstored
      rw [← h.discovered]
      exact (eraseDups_append_cons_of_mem hmem pending).symm
  | @store table reference raw pending e hnew hanswer hparse =>
      obtain ⟨hnodup, hnext⟩ := h.next hnew
      have hstored : (table.insert reference raw).stored = table.stored ++ [reference] := by
        simp [LookupTable.stored, LookupTable.insert]
      have hfound : referencesIn raw = e.references := by rw [referencesIn, hparse]
      have hmet : met references (table.insert reference raw).entries =
          met references table.entries ++ e.references := by
        rw [← hfound]
        exact met_concat references table.entries (reference, raw)
      refine ⟨?_, ?_, ?_, ?_⟩
      · rw [hstored]
        exact hnodup
      · intro answer hmem
        rcases List.mem_append.mp hmem with hmem | hmem
        · exact h.answered answer hmem
        · cases List.mem_singleton.mp hmem
          exact hanswer
      · -- what is stored already need not wait again
        have hskip : ∀ r, (!table.contains r) = false →
            r ∈ table.stored ++ reference :: pending := by
          intro r hr
          have hcontains : table.contains r = true := by simpa using hr
          exact List.mem_append_left _ (LookupTable.contains_iff_mem_stored.mp hcontains)
        have hwait := eraseDups_append_filter hskip e.references
        have hsame := eraseDups_append_congr h.discovered e.references
        rw [hstored, hmet, ← hsame, ← hwait]
        simp only [List.append_assoc, List.cons_append, List.nil_append]
      · intro before answer hfront
        rcases List.prefix_concat_iff.mp hfront with heq | hfront
        · -- the answer that was just stored
          obtain ⟨rfl, hlast⟩ := List.append_inj' heq rfl
          cases hlast
          exact hnext
        · exact h.asked before answer hfront

/-- A run of the queue keeps the order of discovery. -/
theorem Run.inOrder (hrun : Run answers s s') (h : s.InOrder answers references) :
    s'.InOrder answers references := by
  induction hrun with
  | refl => exact h
  | tail _ hstep ih => exact hstep.inOrder ih

/-- When nothing waits, all that was met is stored, in the order of discovery. -/
theorem InOrder.stored_eq {table : LookupTable} (h : InOrder answers references ⟨table, []⟩) :
    table.stored = (met references table.entries).eraseDups := by
  have hdiscovered := h.discovered
  rwa [List.append_nil, eraseDups_of_nodup h.distinct] at hdiscovered

/-- The references that were asked for: those that were answered with raw values that can be
read, and the one that ended building. -/
def questions (answered : List (String × String)) (last : Option String) : List String :=
  answered.map Prod.fst ++ last.toList

/-- The last question ended building with this error: it has no answer, or its answer holds
an opening parenthesis. -/
def EndedBy (replies : String → Option String → Prop) (last : Option String) (error : EvalError) :
    Prop :=
  ∃ r, last = some r ∧
    (replies (stripBraces r) none ∧ error = .referenceNotFound r ∨
      ∃ raw, replies (stripBraces r) (some raw) ∧ '(' ∈ raw.toList ∧
        error = .unreadable (.parenthesis raw))

/-- Where building ends, at most one question is left, and it is the next one. -/
theorem Stops.exists_last {lastAsked : List String} (hstop : Stops replies s lastAsked result)
    (h : s.InOrder answers references) :
    ∃ last, lastAsked = last.toList.map stripBraces ∧
      (questions s.table.entries last).Nodup ∧
      questions s.table.entries last <+: (met references s.table.entries).eraseDups ∧
      (∀ table, result = .ok table → last = none ∧ table = s.table ∧
        s.table.stored = (met references s.table.entries).eraseDups) ∧
      ∀ error, result = .error error → EndedBy replies last error := by
  cases hstop with
  | @done table =>
      have hquestions : questions table.entries none = table.stored := List.append_nil _
      refine ⟨none, rfl, ?_, ?_, ?_, ?_⟩
      · rw [hquestions]
        exact h.distinct
      · have hall := hquestions.trans h.stored_eq
        exact hall ▸ List.prefix_rfl
      · intro table' htable
        cases htable
        exact ⟨rfl, rfl, h.stored_eq⟩
      · intro error herror
        cases herror
  | @missing table reference pending hnew hreply =>
      obtain ⟨hnodup, hnext⟩ := h.next hnew
      refine ⟨some reference, rfl, hnodup, hnext, ?_, ?_⟩
      · intro table' htable
        cases htable
      · intro error herror
        cases herror
        exact ⟨reference, rfl, Or.inl ⟨hreply, rfl⟩⟩
  | @unreadable table reference raw pending cause hnew hreply hparse =>
      obtain ⟨hnodup, hnext⟩ := h.next hnew
      obtain ⟨hparen, rfl⟩ := Expression.parse_eq_error_iff.mp hparse
      refine ⟨some reference, rfl, hnodup, hnext, ?_, ?_⟩
      · intro table' htable
        cases htable
      · intro error herror
        cases herror
        exact ⟨reference, rfl, Or.inr ⟨raw, hreply, hparen, rfl⟩⟩

/-! ## Paths -/

/-- References that were met are paths in braces, if those to begin with are. -/
theorem exists_referenceTo_of_mem_met {answered : List (String × String)}
    (hstart : ∀ r ∈ references, ∃ path, r = referenceTo path) {r : String}
    (h : r ∈ met references answered) : ∃ path, r = referenceTo path := by
  rcases List.mem_append.mp h with h | h
  · exact hstart r h
  · obtain ⟨answer, -, hr⟩ := List.mem_flatMap.mp h
    unfold referencesIn at hr
    split at hr
    · rename_i e hparse
      exact Expression.exists_referenceTo_of_parse hparse hr
    · cases hr

end Filling

/-- Different references in braces have different paths. -/
theorem nodup_map_stripBraces {references : List String} (hnodup : references.Nodup)
    (hbraces : ∀ r ∈ references, ∃ path, r = referenceTo path) :
    (references.map stripBraces).Nodup := by
  refine hnodup.map_on fun r hr r' hr' hpath => ?_
  obtain ⟨path, rfl⟩ := hbraces r hr
  obtain ⟨path', rfl⟩ := hbraces r' hr'
  rw [stripBraces_referenceTo, stripBraces_referenceTo] at hpath
  rw [hpath]

/-- **Every reference is asked for once, breadth first.** This holds of any source, whatever it
replies, and of any end of building: `build` ends as `Filling.Ends` says. The questions are
distinct references, and have distinct paths if the references of the expressions are in
braces. Each is the first reference that was met and not yet asked, where the expressions'
own references are met first and then those in the first answer, those in the second, and so
on. If there is a table, its entries are the questions with their answers, and all that was
met was asked. If not, the last question is the one without an answer, or with an answer that
holds an opening parenthesis. -/
theorem build_asks_breadth_first (expressions : List Expression) :
    (∀ source : Source, Filling.Ends (fun path reply => source.raw? path = reply)
      (.start expressions) (LookupTable.build expressions source).asked
      (LookupTable.build expressions source).outcome.result) ∧
    ∀ replies asked result, Filling.Ends replies (.start expressions) asked result →
      ∃ answered last,
        asked = (Filling.questions answered last).map stripBraces ∧
        (∀ answer ∈ answered, replies (stripBraces answer.1) (some answer.2)) ∧
        (Filling.questions answered last).Nodup ∧
        ((∀ e ∈ expressions, ∀ r ∈ e.references, ∃ path, r = referenceTo path) → asked.Nodup) ∧
        Filling.AsksBreadthFirst (expressions.flatMap Expression.references) answered ∧
        Filling.questions answered last <+:
          (Filling.met (expressions.flatMap Expression.references) answered).eraseDups ∧
        (∀ table, result = .ok table → last = none ∧ table.entries = answered ∧
          answered.map Prod.fst =
            (Filling.met (expressions.flatMap Expression.references) answered).eraseDups) ∧
        ∀ error, result = .error error → Filling.EndedBy replies last error := by
  refine ⟨fun source => LookupTable.ends_build source expressions, ?_⟩
  intro replies asked result hends
  obtain ⟨s, lastAsked, hrun, hstop, hasked⟩ := hends.exists_stops
  have horder := Filling.Run.inOrder hrun (Filling.start_inOrder expressions)
  obtain ⟨last, hlast, hnodup, hfront, hok, herror⟩ := hstop.exists_last horder
  have hsame : asked = (Filling.questions s.table.entries last).map stripBraces := by
    rw [Filling.questions, List.map_append, ← hlast]
    exact hasked
  refine ⟨s.table.entries, last, hsame, horder.answered, hnodup, ?_, horder.asked, hfront, ?_,
    herror⟩
  · intro hbraces
    rw [hsame]
    refine nodup_map_stripBraces hnodup fun r hr => ?_
    -- a question was met, so it is one of the expressions' own or was read in an answer
    have hmet := List.mem_eraseDups.mp (hfront.subset hr)
    refine Filling.exists_referenceTo_of_mem_met (fun r hr => ?_) hmet
    obtain ⟨e, he, hr⟩ := List.mem_flatMap.mp hr
    exact hbraces e he r hr
  · intro table htable
    obtain ⟨hnone, rfl, hall⟩ := hok table htable
    exact ⟨hnone, rfl, hall⟩

/-- A reference in `{a}` to itself, `{b}` twice, and `{b}` again behind `{c}`, which has no
answer. -/
def recurringSource : Source := .ofList [("a", "{a} + {b} / {b}"), ("b", "{c} + {b}")]

theorem build_asks_breadth_first_recurring :
    (LookupTable.build [tangledExpression] recurringSource).asked = ["a", "b", "c"] ∧
      (LookupTable.build [tangledExpression] recurringSource).outcome.result =
        .error (.referenceNotFound "{c}") ∧
      ∃ answered last, ["a", "b", "c"] = (Filling.questions answered last).map stripBraces ∧
        (Filling.questions answered last).Nodup ∧ last = some "{c}" := by
  have hparseA : Expression.parse "{a} + {b} / {b}" =
      .ok ⟨"{a}+{b}/{b}", [.reference "{a}", .operator .add, .reference "{b}", .operator .divide,
        .reference "{b}"], true⟩ := by
    decide +kernel
  have hparseB : Expression.parse "{c} + {b}" =
      .ok ⟨"{c}+{b}", [.reference "{c}", .operator .add, .reference "{b}"], true⟩ := by
    decide +kernel
  have hends : Filling.Ends (fun path reply => recurringSource.raw? path = reply)
      (.start [tangledExpression]) ["a", "b", "c"] (.error (.referenceNotFound "{c}")) := by
    refine .store (by decide) (by decide) hparseA ?_
    refine .skip (by decide) (.store (by decide) (by decide) hparseB ?_)
    exact .skip (by decide) (.stop (.missing (by decide) (by decide)))
  obtain ⟨hbuild, hall⟩ := build_asks_breadth_first [tangledExpression]
  obtain ⟨hasked, hresult⟩ := (hbuild recurringSource).unique (fun h h' => h.symm.trans h') hends
  obtain ⟨answered, last, hsame, -, hnodup, -, -, -, -, herror⟩ := hall _ _ _ hends
  obtain ⟨r, rfl, hr | ⟨raw, -, -, hr⟩⟩ := herror _ rfl
  · cases hr.2
    exact ⟨hasked, hresult, answered, _, hsame, hnodup, rfl⟩
  · cases hr

/-- Two references to `a`, the first of them written without braces. -/
def bareExpression : Expression :=
  ⟨"a+{a}+{b}", [.reference "a", .operator .add, .reference "{a}", .operator .add,
    .reference "{b}"], true⟩

/-- References that are not in braces: a path is asked for again, for another reference. -/
theorem build_asks_path_again :
    (LookupTable.build [bareExpression] (.ofList [("a", "bold")])).asked = ["a", "a", "b"] ∧
      ¬(LookupTable.build [bareExpression] (.ofList [("a", "bold")])).asked.Nodup := by
  have hparse : Expression.parse "bold" = .ok ⟨"bold", [.verbatim "bold"], false⟩ := by
    decide +kernel
  have hends : Filling.Ends (fun path reply => (Source.ofList [("a", "bold")]).raw? path = reply)
      (.start [bareExpression]) ["a", "a", "b"] (.error (.referenceNotFound "{b}")) := by
    refine .store (by decide) (by decide) hparse ?_
    refine .store (by decide) (by decide) hparse ?_
    exact .stop (.missing (by decide) (by decide))
  obtain ⟨hasked, -⟩ := (LookupTable.ends_build _ _).unique (fun h h' => h.symm.trans h') hends
  refine ⟨hasked, ?_⟩
  rw [hasked]
  decide

end DesignTokens
