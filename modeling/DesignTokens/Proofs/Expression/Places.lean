import DesignTokens.Proofs.Expression.Pieces
import DesignTokens.Proofs.Expression.Scanning
import Mathlib.Data.List.Basic
import Mathlib.Data.String.Basic

set_option autoImplicit false

/-! # Operators at their places

The atoms of a value spell the value, so every atom has a place: the text that the atoms
before it spell. `parse_finds_operators` says where the operators are: at the operator
characters that a term follows directly, and nowhere else. Every other operator character
stays inside a verbatim atom.

The places are those of the pieces that scanning cuts. `Marks` says of one operator
character that the pieces have it where it belongs. Putting pieces or characters in front
keeps that (`Marks.cons`, `Marks.consGap`), so scanning does (`marks_scanRest`,
`marks_scan`).
-/

namespace DesignTokens

/-! ## Terms -/

/-- Path characters in braces, or a run of term characters. -/
inductive IsTerm : List Char → Prop
  | reference {path : List Char} (hne : path ≠ []) (hpath : ∀ c ∈ path, isPathChar c = true) :
      IsTerm ('{' :: (path ++ ['}']))
  | run {run : List Char} (hne : run ≠ []) (hrun : ∀ c ∈ run, isTermChar c = true) : IsTerm run

/-- A whole reference or a term character comes first in a text. -/
inductive StartsTerm : List Char → Prop
  | reference {path rest : List Char} (hne : path ≠ [])
      (hpath : ∀ c ∈ path, isPathChar c = true) : StartsTerm ('{' :: (path ++ '}' :: rest))
  | run {c : Char} {rest : List Char} (hc : isTermChar c = true) : StartsTerm (c :: rest)

theorem IsTerm.startsTerm {term : List Char} (h : IsTerm term) (rest : List Char) :
    StartsTerm (term ++ rest) := by
  cases h with
  | reference hne hpath =>
      rw [List.cons_append, List.append_assoc]
      exact .reference hne hpath
  | run hne hrun =>
      obtain ⟨c, term, rfl⟩ := List.exists_cons_of_ne_nil hne
      exact .run (hrun c List.mem_cons_self)

/-- No operator is part of a term. -/
theorem IsTerm.toChar_notMem {term : List Char} (h : IsTerm term) (op : Operator) :
    op.toChar ∉ term := by
  have hchar := isTermChar_toChar op
  intro hmem
  cases h with
  | @reference path hne hpath =>
      have hbrace : op.toChar ≠ '{' ∧ op.toChar ≠ '}' := by cases op <;> decide
      have hpathChar : op.toChar ∈ path := by simpa [hbrace] using hmem
      rw [isTermChar_of_isPathChar (hpath _ hpathChar)] at hchar
      cases hchar
  | run hne hrun =>
      rw [hrun _ hmem] at hchar
      cases hchar

theorem isTerm_of_splitTerm? {text term rest : List Char}
    (h : splitTerm? text = some (term, rest)) : IsTerm term := by
  unfold splitTerm? at h
  split at h
  · rename_i inner
    split at h
    · rename_i c path after hpath _
      cases h
      refine .reference (List.cons_ne_nil c path) ?_
      rw [← hpath]
      exact List.all_eq_true.mp List.all_takeWhile
    · cases h
  · split at h
    · cases h
    · rename_i c run hrun
      cases h
      refine .run (List.cons_ne_nil c run) ?_
      rw [← hrun]
      exact List.all_eq_true.mp List.all_takeWhile

/-- A term is found where one comes first. -/
theorem exists_splitTerm? {text : List Char} (h : StartsTerm text) :
    ∃ term rest, splitTerm? text = some (term, rest) := by
  cases h with
  | reference hne hpath => exact ⟨_, _, splitTerm?_reference hne hpath _⟩
  | @run c rest hc =>
      have hbrace : c ≠ '{' := by
        rintro rfl
        exact absurd hc (by decide)
      unfold splitTerm?
      split
      · rename_i hcons
        exact absurd (List.cons.inj hcons).1 hbrace
      · rw [List.takeWhile_cons, if_pos hc]
        exact ⟨_, _, rfl⟩

/-! ## Places -/

/-- An item stands behind the text that the items before it spell. -/
def StandsAt {α : Type} (spelled : α → List Char) (items : List α) (place : List Char)
    (item : α) : Prop :=
  ∃ before after, items = before ++ item :: after ∧ before.flatMap spelled = place

section

variable {α : Type} {spelled : α → List Char} {items : List α} {place : List Char} {item : α}

theorem standsAt_cons_self : StandsAt spelled (item :: items) [] item :=
  ⟨[], items, rfl, rfl⟩

theorem StandsAt.cons (h : StandsAt spelled items place item) (first : α) :
    StandsAt spelled (first :: items) (spelled first ++ place) item := by
  obtain ⟨before, after, rfl, rfl⟩ := h
  exact ⟨first :: before, after, rfl, List.flatMap_cons⟩

end

/-- A character stands inside a gap. -/
def InGap (pieces : List Piece) (place : List Char) (c : Char) : Prop :=
  ∃ outside front back, StandsAt Piece.text pieces outside (.gap (front ++ c :: back)) ∧
    outside ++ front = place

/-- The pieces have an operator character, behind `left` and before `right`, where it
belongs: in front of the term that follows it, or else inside a gap. -/
inductive Marks (pieces : List Piece) (left : List Char) (op : Operator) (right : List Char) :
    Prop
  | term {term rest : List Char} (hsplit : splitTerm? right = some (term, rest))
      (hterm : StandsAt Piece.text pieces left (.term (some op) term))
  | gap (hsplit : splitTerm? right = none) (hgap : InGap pieces left op.toChar)

section

variable {pieces : List Piece} {place left right : List Char} {op : Operator}

/-- A character put in front moves every piece but a gap at the start, which it joins. -/
theorem StandsAt.consGap {piece : Piece} (h : StandsAt Piece.text pieces place piece) (c : Char) :
    StandsAt Piece.text (Piece.consGap c pieces) (c :: place) piece ∨
      ∃ text, piece = .gap text ∧ place = [] ∧
        StandsAt Piece.text (Piece.consGap c pieces) [] (.gap (c :: text)) := by
  obtain ⟨before, after, rfl, rfl⟩ := h
  cases before with
  | nil =>
      cases piece with
      | term op text => exact Or.inl ⟨[.gap [c]], after, rfl, rfl⟩
      | gap text => exact Or.inr ⟨text, rfl, rfl, standsAt_cons_self⟩
  | cons first before =>
      cases first with
      | term op text => exact Or.inl ⟨.gap [c] :: .term op text :: before, after, rfl, rfl⟩
      | gap text => exact Or.inl ⟨.gap (c :: text) :: before, after, rfl, rfl⟩

theorem InGap.cons {c : Char} (h : InGap pieces place c) (first : Piece) :
    InGap (first :: pieces) (first.text ++ place) c := by
  obtain ⟨outside, front, back, hstands, rfl⟩ := h
  exact ⟨first.text ++ outside, front, back, hstands.cons first, List.append_assoc _ _ _⟩

theorem InGap.consGap {c : Char} (h : InGap pieces place c) (first : Char) :
    InGap (Piece.consGap first pieces) (first :: place) c := by
  obtain ⟨outside, front, back, hstands, rfl⟩ := h
  rcases hstands.consGap first with hstands | ⟨text, htext, rfl, hstands⟩
  · exact ⟨first :: outside, front, back, hstands, rfl⟩
  · cases htext
    exact ⟨[], first :: front, back, hstands, rfl⟩

theorem inGap_consGap_self (c : Char) (pieces : List Piece) :
    InGap (Piece.consGap c pieces) [] c := by
  unfold Piece.consGap
  split
  · exact ⟨[], [], _, standsAt_cons_self, rfl⟩
  · exact ⟨[], [], [], standsAt_cons_self, rfl⟩

theorem Marks.cons (h : Marks pieces left op right) (first : Piece) :
    Marks (first :: pieces) (first.text ++ left) op right := by
  cases h with
  | term hsplit hterm => exact .term hsplit (hterm.cons first)
  | gap hsplit hgap => exact .gap hsplit (hgap.cons first)

theorem Marks.consGap (h : Marks pieces left op right) (c : Char) :
    Marks (Piece.consGap c pieces) (c :: left) op right := by
  cases h with
  | gap hsplit hgap => exact .gap hsplit (hgap.consGap c)
  | term hsplit hterm =>
      rcases hterm.consGap c with hterm | ⟨text, htext, -⟩
      · exact .term hsplit hterm
      · cases htext

end

/-! ## Scanning -/

section

variable {text left right : List Char} {op : Operator}

/-- An operator character is not in the term that comes first, so it is behind it. -/
theorem exists_behind_of_splitTerm? {term rest : List Char}
    (hsplit : splitTerm? text = some (term, rest)) (htext : text = left ++ op.toChar :: right) :
    ∃ behind, left = term ++ behind ∧ rest = behind ++ op.toChar :: right := by
  have hnot := (isTerm_of_splitTerm? hsplit).toChar_notMem op
  rw [← splitTerm?_append hsplit] at htext
  rcases List.append_eq_append_iff.mp htext with ⟨behind, hleft, hrest⟩ | ⟨inside, hterm, hrest⟩
  · exact ⟨behind, hleft, hrest⟩
  · cases inside with
    | nil => exact ⟨[], by simpa using hterm.symm, by simpa using hrest.symm⟩
    | cons c inside =>
        cases hrest
        exact absurd (hterm ▸ List.mem_append_right _ List.mem_cons_self) hnot

theorem marks_scanRest (htext : text = left ++ op.toChar :: right) :
    Marks (scanRest text) left op right := by
  fun_induction scanRest text generalizing left with
  | case1 => simp at htext
  | case2 c cs hop ih =>
      cases left with
      | nil =>
          cases htext
          rw [Operator.ofChar?_toChar] at hop
          cases hop
      | cons c left =>
          cases htext
          exact (ih rfl).consGap c
  | case3 c cs op' hop hsplit ih =>
      cases left with
      | nil =>
          cases htext
          exact .gap hsplit (inGap_consGap_self _ _)
      | cons c left =>
          cases htext
          exact (ih rfl).consGap c
  | case4 c cs op' hop term rest hsplit hle ih =>
      cases left with
      | nil =>
          cases htext
          rw [Operator.ofChar?_toChar] at hop
          cases hop
          exact .term hsplit standsAt_cons_self
      | cons c left =>
          obtain ⟨rfl, hcs⟩ := List.cons.inj htext
          obtain ⟨behind, rfl, hrest⟩ := exists_behind_of_splitTerm? hsplit hcs
          have hmarks := (ih hrest).cons (.term (some op') term)
          rwa [Piece.text, Operator.toChar_of_ofChar? hop] at hmarks

theorem marks_scan (htext : text = left ++ op.toChar :: right) :
    Marks (scan text) left op right := by
  unfold scan
  split
  · exact marks_scanRest htext
  · rename_i term rest hsplit
    obtain ⟨behind, rfl, hrest⟩ := exists_behind_of_splitTerm? hsplit htext
    exact (marks_scanRest hrest).cons (.term none term)

theorem mem_of_mem_consGap {c : Char} {pieces : List Piece} {sign : Option Operator}
    {term : List Char} (h : .term sign term ∈ Piece.consGap c pieces) :
    .term sign term ∈ pieces := by
  unfold Piece.consGap at h
  split at h <;> simpa using h

theorem isTerm_of_mem_scanRest {sign : Option Operator} {term : List Char}
    (h : .term sign term ∈ scanRest text) : IsTerm term := by
  fun_induction scanRest text with
  | case1 => cases h
  | case2 c cs hop ih => exact ih (mem_of_mem_consGap h)
  | case3 c cs op hop hsplit ih => exact ih (mem_of_mem_consGap h)
  | case4 c cs op hop first rest hsplit hle ih =>
      rcases List.mem_cons.mp h with h | h
      · cases h
        exact isTerm_of_splitTerm? hsplit
      · exact ih h

theorem isTerm_of_mem_scan {sign : Option Operator} {term : List Char}
    (h : .term sign term ∈ scan text) : IsTerm term := by
  unfold scan at h
  split at h
  · exact isTerm_of_mem_scanRest h
  · rename_i first rest hsplit
    rcases List.mem_cons.mp h with h | h
    · cases h
      exact isTerm_of_splitTerm? hsplit
    · exact isTerm_of_mem_scanRest h

end

/-! ## Atoms -/

namespace Atom

/-- The characters that an atom was read from. -/
def spelled (atom : Atom) : List Char := atom.sourceText.toList

@[simp] theorem spelled_operator (op : Operator) : (operator op).spelled = [op.toChar] := by
  simp [spelled, sourceText, Operator.text]

@[simp] theorem spelled_verbatim (text : String) : (verbatim text).spelled = text.toList := rfl

theorem sourceText_ofTerm (term : List Char) : (ofTerm term).sourceText = String.ofList term := by
  unfold ofTerm
  split
  · rfl
  · cases hnumber : ofNumber? term with
    | none => rfl
    | some atom =>
        obtain ⟨parts, -, hnumber⟩ := Option.bind_eq_some_iff.mp hnumber
        obtain ⟨value, -, hatom⟩ := Option.bind_eq_some_iff.mp hnumber
        cases hatom
        rfl

@[simp] theorem spelled_ofTerm (term : List Char) : (ofTerm term).spelled = term := by
  rw [spelled, sourceText_ofTerm, String.toList_ofList]

theorem ofTerm_ne_operator {term : List Char} {op : Operator} : ofTerm term ≠ .operator op := by
  intro h
  unfold ofTerm at h
  split at h
  · cases h
  · cases hnumber : ofNumber? term with
    | none =>
        rw [hnumber] at h
        cases h
    | some atom =>
        obtain ⟨parts, -, hatom⟩ := Option.bind_eq_some_iff.mp hnumber
        obtain ⟨value, -, hatom⟩ := Option.bind_eq_some_iff.mp hatom
        rw [hnumber] at h
        cases hatom
        cases h

end Atom

theorem Piece.spelled_atoms (piece : Piece) : piece.atoms.flatMap Atom.spelled = piece.text := by
  match piece with
  | .term (some op) content => simp [atoms, text]
  | .term none content => simp [atoms, text]
  | .gap content => simp [atoms, text]

section

variable {pieces : List Piece}

theorem spelled_flatMap_atoms (pieces : List Piece) :
    (pieces.flatMap Piece.atoms).flatMap Atom.spelled = pieces.flatMap Piece.text := by
  rw [List.flatMap_assoc]
  exact List.flatMap_congr fun piece _ => piece.spelled_atoms

/-- The first atom of a piece stands where the piece does. -/
theorem StandsAt.atom {place : List Char} {piece : Piece}
    (h : StandsAt Piece.text pieces place piece) {atom : Atom} {others : List Atom}
    (hatoms : piece.atoms = atom :: others) :
    StandsAt Atom.spelled (pieces.flatMap Piece.atoms) place atom := by
  obtain ⟨before, after, rfl, rfl⟩ := h
  refine ⟨before.flatMap Piece.atoms, others ++ after.flatMap Piece.atoms, ?_,
    spelled_flatMap_atoms before⟩
  rw [List.flatMap_append, List.flatMap_cons, hatoms, List.cons_append]

/-- An operator is the first atom of a term with an operator, and the term is next. -/
theorem exists_term_of_operator {before after : List Atom} {op : Operator}
    (h : pieces.flatMap Piece.atoms = before ++ .operator op :: after) :
    ∃ term rest, .term (some op) term ∈ pieces ∧ after = .ofTerm term :: rest := by
  obtain ⟨earlier, piece, later, front, back, rfl, hpiece, -, rfl⟩ := exists_item_of_flatMap h
  match piece, front, hpiece with
  | .gap gap, [], hgap => cases hgap
  | .gap gap, _ :: front, hgap => simp [Piece.atoms] at hgap
  | .term none term, [], hterm => exact absurd (List.cons.inj hterm).1 Atom.ofTerm_ne_operator
  | .term none term, _ :: front, hterm => simp [Piece.atoms] at hterm
  | .term (some op') term, [], hterm =>
      cases hterm
      exact ⟨term, _, List.mem_append_right _ List.mem_cons_self, rfl⟩
  | .term (some op') term, _ :: front, hterm =>
      -- the only other atom is the term
      have hlast := (List.cons.inj hterm).2
      cases front with
      | nil => exact absurd (List.cons.inj hlast).1 Atom.ofTerm_ne_operator
      | cons first front => simp at hlast

end

namespace Expression

variable {source : List Char}

/-- The atoms of a value spell it. -/
theorem spelled_atomsOf (source : List Char) : (atomsOf source).flatMap Atom.spelled = source := by
  rw [atomsOf, spelled_flatMap_atoms, flatten_scan]

/-- The atom after an operator is a term. -/
theorem exists_isTerm_of_operator {before after : List Atom} {op : Operator}
    (h : atomsOf source = before ++ .operator op :: after) :
    ∃ atom rest, after = atom :: rest ∧ (∀ op', atom ≠ .operator op') ∧ IsTerm atom.spelled := by
  obtain ⟨term, rest, hmem, hafter⟩ := exists_term_of_operator h
  refine ⟨_, rest, hafter, fun _ => Atom.ofTerm_ne_operator, ?_⟩
  rw [Atom.spelled_ofTerm]
  exact isTerm_of_mem_scan hmem

/-- An operator is found exactly where a term follows its character. -/
theorem standsAt_operator_iff {left right : List Char} {op : Operator}
    (hsource : source = left ++ op.toChar :: right) :
    StandsAt Atom.spelled (atomsOf source) left (.operator op) ↔ StartsTerm right := by
  constructor
  · rintro ⟨before, after, hatoms, rfl⟩
    obtain ⟨atom, rest, rfl, -, hterm⟩ := exists_isTerm_of_operator hatoms
    -- what the atoms behind the operator spell is the text behind its character
    have hspelled := spelled_atomsOf source
    rw [hatoms, hsource, List.flatMap_append, List.flatMap_cons, List.flatMap_cons] at hspelled
    have hright : atom.spelled ++ rest.flatMap Atom.spelled = right := by
      simpa using hspelled
    rw [← hright]
    exact hterm.startsTerm _
  · intro hstarts
    obtain ⟨term, rest, hterm⟩ := exists_splitTerm? hstarts
    cases marks_scan hsource with
    | term _ hstands => exact hstands.atom rfl
    | gap hsplit _ =>
        rw [hterm] at hsplit
        cases hsplit

/-- An operator character that no term follows stays inside verbatim text. -/
theorem exists_verbatim_of_not_startsTerm {left right : List Char} {op : Operator}
    (hsource : source = left ++ op.toChar :: right) (hnot : ¬StartsTerm right) :
    ∃ outside front back, outside ++ front = left ∧
      StandsAt Atom.spelled (atomsOf source) outside
        (.verbatim (String.ofList (front ++ op.toChar :: back))) := by
  cases marks_scan hsource with
  | term hsplit _ =>
      rw [← splitTerm?_append hsplit] at hnot
      exact absurd ((isTerm_of_splitTerm? hsplit).startsTerm _) hnot
  | gap _ hgap =>
      obtain ⟨outside, front, back, hstands, hleft⟩ := hgap
      exact ⟨outside, front, back, hleft, hstands.atom rfl⟩

end Expression

/-- **Reading loses nothing and finds every operator.** A text without an opening parenthesis
is read. The texts of its atoms, joined, are the text without blanks; after every operator
comes a term; and an operator character is an operator exactly when a term follows it
directly, and otherwise inside a verbatim atom. -/
theorem parse_finds_operators {text : String} (h : '(' ∉ text.toList) :
    ∃ e, Expression.parse text = .ok e ∧
      String.join (e.atoms.map Atom.sourceText) = stripBlanks text ∧
      (∀ before op after, e.atoms = before ++ .operator op :: after →
        ∃ atom rest, after = atom :: rest ∧ (∀ op', atom ≠ .operator op') ∧
          IsTerm atom.spelled) ∧
      ∀ left op right, (stripBlanks text).toList = left ++ Operator.toChar op :: right →
        (StandsAt Atom.spelled e.atoms left (.operator op) ↔ StartsTerm right) ∧
        (¬StartsTerm right → ∃ outside front back, outside ++ front = left ∧
          StandsAt Atom.spelled e.atoms outside
            (.verbatim (String.ofList (front ++ op.toChar :: back)))) := by
  refine ⟨_, Expression.parse_of_notMem h, ?_, ?_, ?_⟩
  · have hspelled := Expression.spelled_atomsOf (stripBlanks text).toList
    rw [List.flatMap_def] at hspelled
    rw [String.join_eq, List.map_map]
    exact (congrArg String.ofList hspelled).trans String.ofList_toList
  · intro before op after hatoms
    exact Expression.exists_isTerm_of_operator hatoms
  · intro left op right hsource
    exact ⟨Expression.standsAt_operator_iff hsource,
      Expression.exists_verbatim_of_not_startsTerm hsource⟩

theorem parse_finds_operators_mixed :
    '(' ∉ "2 * {a.b} - x +".toList ∧
      ∃ e, Expression.parse "2 * {a.b} - x +" = .ok e ∧
        String.join (e.atoms.map Atom.sourceText) = "2*{a.b}-x+" ∧
        StandsAt Atom.spelled e.atoms ['2'] (.operator .multiply) ∧
        StandsAt Atom.spelled e.atoms "2*{a.b}".toList (.operator .subtract) ∧
        ∃ outside front back, outside ++ front = "2*{a.b}-x".toList ∧
          StandsAt Atom.spelled e.atoms outside
            (.verbatim (String.ofList (front ++ '+' :: back))) := by
  have hblanks : stripBlanks "2 * {a.b} - x +" = "2*{a.b}-x+" := by decide +kernel
  have hpath : ∀ c ∈ "a.b".toList, isPathChar c = true := List.all_eq_true.mp (by decide)
  have hreference : StartsTerm "{a.b}-x+".toList := .reference (by decide) hpath
  have hrun : StartsTerm "x+".toList := .run (by decide)
  have hend : ¬StartsTerm [] := by rintro ⟨⟩
  obtain ⟨e, hparse, htext, -, hplaces⟩ :=
    @parse_finds_operators "2 * {a.b} - x +" (by decide)
  rw [hblanks] at htext hplaces
  exact ⟨by decide, e, hparse, htext, (hplaces _ .multiply _ rfl).1.mpr hreference,
    (hplaces _ .subtract _ rfl).1.mpr hrun, (hplaces _ .add [] rfl).2 hend⟩

end DesignTokens
