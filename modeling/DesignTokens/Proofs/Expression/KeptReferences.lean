import DesignTokens.Proofs.Expression.Places

set_option autoImplicit false

/-! # References that are kept as text

A reference in a value is found where a term can be: at the beginning, and directly behind an
operator character. Anywhere else it stays inside verbatim text, as in `a{b}` and `a,{b}`.
Reading warns if verbatim text starts with a brace. `read_warns_iff` says where the brace is then,
and that reading is silent about references that are kept behind other verbatim text.

A brace belongs to one piece of the value (`exists_item_of_flatMap`), which is a gap unless a term
can be there (`exists_gap_of_brace`). A gap that starts with a brace comes first or behind a term
(`hasOpenBrace_of_gap`), and every open brace starts one (`exists_gap_of_hasOpenBrace`).
-/

namespace DesignTokens

/-! ## Braces -/

/-- A term can be at a place: at the beginning, or directly behind an operator character. -/
def TakesTerm (left : List Char) : Prop :=
  left = [] ∨ ∃ front op, left = front ++ [Operator.toChar op]

/-- A text ends with a term at a place for one. -/
def EndsWithTerm (left : List Char) : Prop :=
  ∃ front term, left = front ++ term ∧ TakesTerm front ∧ IsTerm term

/-- A brace in a term is its first character. -/
theorem IsTerm.eq_nil_of_brace {front back : List Char} (h : IsTerm (front ++ '{' :: back)) :
    front = [] := by
  generalize hterm : front ++ '{' :: back = term at h
  cases h with
  | @reference path hne hpath =>
      cases front with
      | nil => rfl
      | cons c front =>
          -- behind the first brace there are path characters and the other brace
          obtain ⟨-, hinside⟩ := List.cons.inj hterm
          have hmem : '{' ∈ path ++ ['}'] := by
            rw [← hinside]
            exact List.mem_append_right _ List.mem_cons_self
          obtain hmem | hmem := List.mem_append.mp hmem
          · exact absurd (hpath '{' hmem) (by decide)
          · exact absurd hmem (by decide)
  | run hne hrun =>
      have hmem : '{' ∈ term := by
        rw [← hterm]
        exact List.mem_append_right _ List.mem_cons_self
      exact absurd (hrun '{' hmem) (by decide)

theorem toChar_ne_brace (op : Operator) : op.toChar ≠ '{' := by
  cases op <;> decide

section

variable {source left right : List Char}

/-- In front of a term piece a term can be, behind its operator if it has one. -/
theorem takesTerm_of_scan {earlier later : List Piece} {sign : Option Operator}
    {term : List Char} (hscan : scan source = earlier ++ .term sign term :: later) :
    TakesTerm (earlier.flatMap Piece.text ++ sign.toList.map Operator.toChar) := by
  cases sign with
  | none =>
      rw [eq_nil_of_scan hscan]
      exact .inl rfl
  | some op => exact .inr ⟨_, op, rfl⟩

/-- The piece that a brace belongs to is a gap, unless a term can be there. -/
theorem exists_gap_of_brace (hsource : source = left ++ '{' :: right) (hleft : ¬TakesTerm left) :
    ∃ earlier front back later, scan source = earlier ++ .gap (front ++ '{' :: back) :: later ∧
      left = earlier.flatMap Piece.text ++ front ∧
      right = back ++ later.flatMap Piece.text := by
  rw [← flatten_scan source] at hsource
  obtain ⟨earlier, piece, later, front, back, hscan, hpiece, hbefore, hafter⟩ :=
    exists_item_of_flatMap hsource
  have hmem : piece ∈ scan source := by
    rw [hscan]
    exact List.mem_append_right _ List.mem_cons_self
  match piece, hpiece with
  | .gap gap, hgap =>
      obtain rfl : gap = front ++ '{' :: back := hgap
      exact ⟨earlier, front, back, later, hscan, hbefore, hafter⟩
  | .term none term, hterm =>
      obtain rfl : term = front ++ '{' :: back := hterm
      obtain rfl : front = [] := (isTerm_of_mem_scan hmem).eq_nil_of_brace
      exact absurd (hbefore ▸ takesTerm_of_scan hscan) hleft
  | .term (some op) term, hterm =>
      cases front with
      | nil => exact absurd (List.cons.inj hterm).1 (toChar_ne_brace op)
      | cons c front =>
          obtain ⟨rfl, rfl⟩ := List.cons.inj hterm
          obtain rfl : front = [] := (isTerm_of_mem_scan hmem).eq_nil_of_brace
          exact absurd (hbefore ▸ takesTerm_of_scan hscan) hleft

/-- Where a term can be, the term that comes first is a piece. -/
theorem exists_term_of_takesTerm {term : List Char} (hsource : source = left ++ right)
    (hleft : TakesTerm left) {behind : List Char}
    (hsplit : splitTerm? right = some (term, behind)) :
    ∃ earlier sign later, scan source = earlier ++ .term sign term :: later ∧
      earlier.flatMap Piece.text ++ sign.toList.map Operator.toChar = left ∧
      later.flatMap Piece.text = behind := by
  obtain rfl | ⟨front, op, rfl⟩ := hleft
  · refine ⟨[], none, scanRest behind, ?_, rfl, flatten_scanRest behind⟩
    rw [scan, hsource, List.nil_append, hsplit]
    rfl
  · rw [List.append_assoc, List.singleton_append] at hsource
    cases marks_scan hsource with
    | gap hnone _ =>
        rw [hsplit] at hnone
        cases hnone
    | term hsome hstands =>
        rw [hsplit] at hsome
        cases hsome
        obtain ⟨earlier, later, hscan, rfl⟩ := hstands
        have hspelled := flatten_scan source
        rw [hscan, hsource, ← splitTerm?_append hsplit, List.flatMap_append,
          List.flatMap_cons] at hspelled
        exact ⟨earlier, some op, later, hscan, rfl, by simpa [Piece.text] using hspelled⟩

/-- A gap goes on behind a text without operator characters. -/
theorem exists_rest_of_gap {earlier later : List Piece} {gap block back : List Char}
    (hscan : scan source = earlier ++ .gap gap :: later)
    (hblock : ∀ op : Operator, op.toChar ∉ block)
    (hback : block ++ right = back ++ later.flatMap Piece.text) :
    ∃ rest, back = block ++ rest := by
  obtain ⟨rest, hrest, -⟩ | ⟨rest, hrest, hlater⟩ := List.append_eq_append_iff.mp hback
  · exact ⟨rest, hrest⟩
  · suffices hnil : rest = [] by exact ⟨[], by rw [hrest, hnil, List.append_nil, List.append_nil]⟩
    obtain rfl | ⟨op, others, hop⟩ := exists_operator_behind_gap hscan
    · exact (List.append_eq_nil_iff.mp hlater.symm).1
    · cases rest with
      | nil => rfl
      | cons c rest =>
          rw [hop] at hlater
          obtain ⟨rfl, -⟩ := List.cons.inj hlater
          refine absurd ?_ (hblock op)
          rw [hrest]
          exact List.mem_append_right _ List.mem_cons_self

end

/-! ## References -/

namespace Expression

variable {source left path right : List Char}

/-- Where a term can be, a reference is found. -/
theorem standsAt_reference (hne : path ≠ []) (hpath : ∀ c ∈ path, isPathChar c = true)
    (hsource : source = left ++ '{' :: (path ++ '}' :: right)) (hleft : TakesTerm left) :
    StandsAt Atom.spelled (atomsOf source) left
      (.reference (String.ofList ('{' :: (path ++ ['}'])))) := by
  obtain ⟨earlier, sign, later, hscan, hbefore, -⟩ :=
    exists_term_of_takesTerm hsource hleft (splitTerm?_reference hne hpath right)
  refine ⟨earlier.flatMap Piece.atoms ++ sign.toList.map .operator,
    later.flatMap Piece.atoms, ?_, ?_⟩
  · rw [atomsOf, hscan, ← Atom.ofTerm_of_termWord (.reference hne hpath)]
    cases sign <;> simp [Piece.atoms]
  · rw [← hbefore, List.flatMap_append, spelled_flatMap_atoms]
    cases sign <;> simp

/-- Only where a term can be, a reference is found. -/
theorem takesTerm_of_reference {reference : String}
    (h : StandsAt Atom.spelled (atomsOf source) left (.reference reference)) : TakesTerm left := by
  obtain ⟨before, after, hatoms, rfl⟩ := h
  obtain ⟨earlier, piece, later, front, back, hscan, hpiece, rfl, -⟩ :=
    exists_item_of_flatMap hatoms
  rw [List.flatMap_append, spelled_flatMap_atoms]
  match piece, front, hpiece with
  | .gap gap, [], hgap => cases hgap
  | .gap gap, _ :: front, hgap => simp [Piece.atoms] at hgap
  | .term none term, [], _ => exact takesTerm_of_scan hscan
  | .term none term, _ :: front, hterm => simp [Piece.atoms] at hterm
  | .term (some op) term, [], hterm => cases hterm
  | .term (some op) term, [first], hterm =>
      obtain rfl : .operator op = first := (List.cons.inj hterm).1
      simpa using takesTerm_of_scan hscan
  | .term (some op) term, _ :: _ :: front, hterm => simp [Piece.atoms] at hterm

/-- A reference where no term can be is part of verbatim text. -/
theorem exists_verbatim_of_reference (hpath : ∀ c ∈ path, isPathChar c = true)
    (hsource : source = left ++ '{' :: (path ++ '}' :: right)) (hleft : ¬TakesTerm left) :
    ∃ outside front back, outside ++ front = left ∧
      StandsAt Atom.spelled (atomsOf source) outside
        (.verbatim (String.ofList (front ++ '{' :: (path ++ '}' :: back)))) := by
  obtain ⟨earlier, front, back, later, hscan, hbefore, hafter⟩ :=
    exists_gap_of_brace hsource hleft
  have hblock : ∀ op : Operator, op.toChar ∉ path ++ ['}'] := by
    intro op hmem
    obtain hmem | hmem := List.mem_append.mp hmem
    · have hchar := isTermChar_of_isPathChar (hpath _ hmem)
      rw [isTermChar_toChar] at hchar
      cases hchar
    · revert hmem
      cases op <;> decide
  have hback : path ++ ['}'] ++ right = back ++ later.flatMap Piece.text := by
    simpa using hafter
  obtain ⟨rest, rfl⟩ := exists_rest_of_gap hscan hblock hback
  refine ⟨earlier.flatMap Piece.text, front, rest, hbefore.symm, ?_⟩
  rw [List.append_assoc, List.singleton_append] at hscan
  exact StandsAt.atom ⟨earlier, later, hscan, rfl⟩ rfl

end Expression

/-! ## Warnings -/

/-- A value has a brace that starts verbatim text: it comes first without a whole reference, or
directly behind a term. -/
def HasOpenBrace (source : List Char) : Prop :=
  ∃ left right, source = left ++ '{' :: right ∧
    ((left = [] ∧ ¬StartsTerm source) ∨ EndsWithTerm left)

namespace Expression

variable {source : List Char}

theorem looksLikeReference_ofTerm {term : List Char} (hterm : IsTerm term) :
    (Atom.ofTerm term).looksLikeReference = false := by
  cases hterm with
  | reference hne hpath =>
      rw [Atom.ofTerm_of_termWord (.reference hne hpath)]
      rfl
  | run hne hrun =>
      -- a run holds no brace, and the atom is spelled like the run
      have hhead : (Atom.ofTerm term).spelled.head? ≠ some '{' := by
        rw [Atom.spelled_ofTerm]
        intro hbrace
        exact absurd (hrun '{' (List.mem_of_mem_head? hbrace)) (by decide)
      cases hatom : Atom.ofTerm term with
      | verbatim text =>
          rw [hatom, Atom.spelled_verbatim] at hhead
          simpa [Atom.looksLikeReference] using hhead
      | _ => rfl

/-- Only a gap that starts with a brace looks like a reference. -/
theorem any_looksLikeReference_iff :
    (atomsOf source).any Atom.looksLikeReference = true ↔
      ∃ earlier rest later, scan source = earlier ++ .gap ('{' :: rest) :: later := by
  rw [List.any_eq_true]
  constructor
  · rintro ⟨atom, hatom, hlooks⟩
    obtain ⟨piece, hpiece, hmem⟩ := List.mem_flatMap.mp hatom
    have hnot : ∀ term, IsTerm term → atom ≠ .ofTerm term := by
      rintro term hterm rfl
      rw [looksLikeReference_ofTerm hterm] at hlooks
      cases hlooks
    match piece with
    | .term none term =>
        exact absurd (List.mem_singleton.mp hmem) (hnot term (isTerm_of_mem_scan hpiece))
    | .term (some op) term =>
        obtain rfl | hmem := List.mem_cons.mp hmem
        · cases hlooks
        · exact absurd (List.mem_singleton.mp hmem) (hnot term (isTerm_of_mem_scan hpiece))
    | .gap gap =>
        obtain rfl := List.mem_singleton.mp hmem
        obtain ⟨earlier, later, hscan⟩ := List.append_of_mem hpiece
        simp only [Atom.looksLikeReference, String.toList_ofList, beq_iff_eq] at hlooks
        obtain ⟨rest, rfl⟩ := List.head?_eq_some_iff.mp hlooks
        exact ⟨earlier, rest, later, hscan⟩
  · rintro ⟨earlier, rest, later, hscan⟩
    refine ⟨.verbatim (String.ofList ('{' :: rest)), ?_, by simp [Atom.looksLikeReference]⟩
    rw [atomsOf, hscan]
    simp [Piece.atoms]

/-- A gap that starts with a brace is at the beginning, where no term is, or behind a term. -/
theorem hasOpenBrace_of_gap {earlier later : List Piece} {rest : List Char}
    (hscan : scan source = earlier ++ .gap ('{' :: rest) :: later) : HasOpenBrace source := by
  have hsource := flatten_scan source
  rw [hscan, List.flatMap_append, List.flatMap_cons] at hsource
  refine ⟨earlier.flatMap Piece.text, rest ++ later.flatMap Piece.text, hsource.symm, ?_⟩
  obtain rfl | ⟨front, sign, term, rfl⟩ := exists_term_before_gap hscan
  · refine .inl ⟨rfl, fun hstarts => ?_⟩
    obtain ⟨term, behind, hsplit⟩ := exists_splitTerm? hstarts
    rw [scan, hsplit] at hscan
    cases hscan
  · right
    have hmem : .term sign term ∈ scan source := by
      rw [hscan]
      simp
    rw [List.append_assoc] at hscan
    refine ⟨_, term, ?_, takesTerm_of_scan hscan, isTerm_of_mem_scan hmem⟩
    cases sign <;> simp [Piece.text]

/-- A term ends before a brace. -/
theorem splitTerm?_of_isTerm {term right : List Char} (hterm : IsTerm term) :
    splitTerm? (term ++ '{' :: right) = some (term, '{' :: right) := by
  cases hterm with
  | reference hne hpath =>
      rw [List.cons_append, List.append_assoc]
      exact splitTerm?_reference hne hpath _
  | run hne hrun =>
      refine splitTerm?_run hne hrun fun c hc => ?_
      cases hc
      decide

/-- Where no term can be, a brace starts a gap. -/
theorem exists_scanRest_brace (right : List Char) :
    ∃ rest later, scanRest ('{' :: right) = .gap ('{' :: rest) :: later := by
  have hcons : scanRest ('{' :: right) = Piece.consGap '{' (scanRest right) := by
    rw [scanRest]
    rfl
  rw [hcons]
  cases scanRest right with
  | nil => exact ⟨_, _, rfl⟩
  | cons piece pieces => cases piece <;> exact ⟨_, _, rfl⟩

/-- Behind a term a brace starts a gap. -/
theorem exists_gap_behind_term {earlier later : List Piece} {sign : Option Operator}
    {term right : List Char} (hscan : scan source = earlier ++ .term sign term :: later)
    (hlater : later.flatMap Piece.text = '{' :: right) :
    ∃ rest others, later = .gap ('{' :: rest) :: others := by
  have hchain := isChain_scan source
  rw [hscan] at hchain
  cases (List.isChain_append.mp hchain).2.1 with
  | singleton => cases hlater
  | cons_cons hfollows hrest =>
      cases hfollows with
      | @term _ op => exact absurd (List.cons.inj hlater).1 (toChar_ne_brace op)
      | gap =>
          obtain ⟨rfl, -⟩ := List.cons.inj hlater
          exact ⟨_, _, rfl⟩

theorem exists_gap_of_hasOpenBrace (h : HasOpenBrace source) :
    ∃ earlier rest later, scan source = earlier ++ .gap ('{' :: rest) :: later := by
  obtain ⟨left, right, hsource, hplace⟩ := h
  obtain ⟨rfl, hstarts⟩ | ⟨front, term, rfl, hfront, hterm⟩ := hplace
  · have hnone : splitTerm? source = none := by
      refine Option.eq_none_iff_forall_ne_some.mpr fun parts hsplit => hstarts ?_
      rw [← splitTerm?_append hsplit]
      exact (isTerm_of_splitTerm? hsplit).startsTerm _
    obtain ⟨rest, later, hscan⟩ := exists_scanRest_brace right
    refine ⟨[], rest, later, ?_⟩
    rw [scan, hnone, hsource]
    exact hscan
  · rw [List.append_assoc] at hsource
    obtain ⟨earlier, sign, later, hscan, -, hlater⟩ :=
      exists_term_of_takesTerm hsource hfront (splitTerm?_of_isTerm hterm)
    obtain ⟨rest, others, rfl⟩ := exists_gap_behind_term hscan hlater
    exact ⟨earlier ++ [.term sign term], rest, others, by simp [hscan]⟩

theorem warns_iff_hasOpenBrace :
    (atomsOf source).any Atom.looksLikeReference = true ↔ HasOpenBrace source := by
  rw [any_looksLikeReference_iff]
  constructor
  · rintro ⟨earlier, rest, later, hscan⟩
    exact hasOpenBrace_of_gap hscan
  · exact exists_gap_of_hasOpenBrace

theorem events_read {text : String} {e : Expression} (h : parse text = .ok e) :
    (read text).events = e.warnings := by
  rw [read, h]

/-- There is one warning if the value has an open brace, and none otherwise. -/
theorem warnings_of_atoms {e : Expression} (hatoms : e.atoms = atomsOf source) :
    (HasOpenBrace source → e.warnings = [.keptAsText e.source]) ∧
      (¬HasOpenBrace source → e.warnings = []) := by
  rw [← warns_iff_hasOpenBrace, ← hatoms]
  exact ⟨fun hopen => if_pos hopen, fun hnot => if_neg hnot⟩

end Expression

/-- **Which references are kept, and when reading warns.** Let a text have no opening
parenthesis, so that it is read. A whole reference in it becomes a reference atom exactly where a
term can be; elsewhere all of it stays inside one verbatim atom. Reading warns once if some brace
starts verbatim text, and is silent otherwise. So a reference that is kept directly behind a term
is warned about; one that is kept behind other verbatim text is not, unless another brace is. -/
theorem read_warns_iff {text : String} (h : '(' ∉ text.toList) :
    ∃ e, Expression.parse text = .ok e ∧
      (HasOpenBrace (stripBlanks text).toList →
        (Expression.read text).events = [.keptAsText (stripBlanks text)]) ∧
      (¬HasOpenBrace (stripBlanks text).toList → (Expression.read text).events = []) ∧
      ∀ left path right, path ≠ [] → (∀ c ∈ path, isPathChar c = true) →
        (stripBlanks text).toList = left ++ '{' :: (path ++ '}' :: right) →
        (StandsAt Atom.spelled e.atoms left
          (.reference (String.ofList ('{' :: (path ++ ['}'])))) ↔ TakesTerm left) ∧
        (¬TakesTerm left →
          (∃ outside front back, outside ++ front = left ∧
            StandsAt Atom.spelled e.atoms outside
              (.verbatim (String.ofList (front ++ '{' :: (path ++ '}' :: back))))) ∧
          (EndsWithTerm left →
            (Expression.read text).events = [.keptAsText (stripBlanks text)])) := by
  obtain ⟨e, hparse, hsource, hatoms⟩ : ∃ e, Expression.parse text = .ok e ∧
      e.source = stripBlanks text ∧ e.atoms = Expression.atomsOf (stripBlanks text).toList :=
    ⟨_, Expression.parse_of_notMem h, rfl, rfl⟩
  obtain ⟨hwarns, hsilent⟩ := Expression.warnings_of_atoms hatoms
  rw [← Expression.events_read hparse] at hwarns hsilent
  rw [hsource] at hwarns
  refine ⟨e, hparse, hwarns, hsilent, fun left path right hne hpath hplace => ?_⟩
  rw [hatoms]
  refine ⟨⟨Expression.takesTerm_of_reference, Expression.standsAt_reference hne hpath hplace⟩,
    fun hleft => ⟨Expression.exists_verbatim_of_reference hpath hplace hleft, ?_⟩⟩
  exact fun hterm => hwarns ⟨left, _, hplace, .inr hterm⟩

example : (Expression.read "a {b}").events = [.keptAsText "a{b}"] := by decide +kernel

/-- In `a, {b}` the reference is kept behind a comma, and reading is silent. -/
theorem read_warns_iff_comma :
    '(' ∉ "a, {b}".toList ∧ stripBlanks "a, {b}" = "a,{b}" ∧
      ¬HasOpenBrace "a,{b}".toList ∧ (Expression.read "a, {b}").events = [] ∧
      ∃ e, Expression.parse "a, {b}" = .ok e ∧
        ¬StandsAt Atom.spelled e.atoms "a,".toList (.reference "{b}") ∧
        ∃ outside front back, outside ++ front = "a,".toList ∧
          StandsAt Atom.spelled e.atoms outside
            (.verbatim (String.ofList (front ++ '{' :: (['b'] ++ '}' :: back)))) := by
  have hblanks : stripBlanks "a, {b}" = "a,{b}" := by decide +kernel
  have hsilent : (Expression.read "a, {b}").events = [] := by decide +kernel
  have hpath : ∀ c ∈ ['b'], isPathChar c = true := List.all_eq_true.mp (by decide)
  have hleft : ¬TakesTerm "a,".toList := by
    rintro (hnil | ⟨front, op, hfront⟩)
    · exact absurd hnil (by decide)
    · have hlast : some ',' = some op.toChar := by
        have hends := congrArg List.getLast? hfront
        rwa [List.getLast?_append] at hends
      revert hlast
      cases op <;> decide
  obtain ⟨e, hparse, hwarns, -, hkept⟩ := @read_warns_iff "a, {b}" (by decide)
  rw [hblanks] at hwarns hkept
  obtain ⟨hfound, hverbatim⟩ := hkept "a,".toList ['b'] [] (by decide) hpath (by decide)
  refine ⟨by decide, hblanks, fun hopen => ?_, hsilent, e, hparse,
    fun hstands => hleft (hfound.mp hstands), (hverbatim hleft).1⟩
  rw [hwarns hopen] at hsilent
  cases hsilent

end DesignTokens
