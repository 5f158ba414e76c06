import DesignTokens.Expression.Atom

set_option autoImplicit false

/-! # Scanning a value

A value is cut into terms, each with the operator directly before it, and the gaps between
them. Only the first term may go without an operator. An operator character that no term
follows belongs to a gap. `flatten_scan` says that nothing is lost.
-/

namespace DesignTokens

/-- A part of a value: a term with its operator, or text between terms. -/
inductive Piece
  | term (op : Option Operator) (text : List Char)
  | gap (text : List Char)
  deriving DecidableEq, Repr

namespace Piece

/-- The text of a piece. -/
def text : Piece → List Char
  | term (some op) text => op.toChar :: text
  | term none text => text
  | gap text => text

/-- Adds a character in front: to the gap that comes first, or as a gap of its own. -/
def consGap (c : Char) : List Piece → List Piece
  | gap text :: pieces => gap (c :: text) :: pieces
  | pieces => gap [c] :: pieces

/-- The atoms of a piece. -/
def atoms : Piece → List Atom
  | term (some op) text => [.operator op, .ofTerm text]
  | term none text => [.ofTerm text]
  | gap text => [.verbatim (String.ofList text)]

end Piece

/-- The term at the start of a text and the text after it: path characters in braces, or
the longest run of term characters. -/
def splitTerm? (text : List Char) : Option (List Char × List Char) :=
  match text with
  | '{' :: rest =>
    match rest.takeWhile isPathChar, rest.dropWhile isPathChar with
    | c :: path, '}' :: after => some ('{' :: c :: path ++ ['}'], after)
    | _, _ => none
  | _ =>
    match text.takeWhile isTermChar with
    | [] => none
    | c :: run => some (c :: run, text.dropWhile isTermChar)

theorem splitTerm?_append {text term rest : List Char}
    (h : splitTerm? text = some (term, rest)) : term ++ rest = text := by
  unfold splitTerm? at h
  split at h
  · rename_i inner
    split at h
    · rename_i c path after hpath hafter
      simp only [Option.some.injEq, Prod.mk.injEq] at h
      obtain ⟨rfl, rfl⟩ := h
      rw [← List.takeWhile_append_dropWhile (p := isPathChar) (l := inner), hpath, hafter]
      simp
    · simp at h
  · split at h
    · simp at h
    · rename_i c run hrun
      simp only [Option.some.injEq, Prod.mk.injEq] at h
      obtain ⟨rfl, rfl⟩ := h
      rw [← hrun, List.takeWhile_append_dropWhile]

theorem length_le_of_splitTerm? {text term rest : List Char}
    (h : splitTerm? text = some (term, rest)) : rest.length ≤ text.length := by
  rw [← splitTerm?_append h, List.length_append]
  exact Nat.le_add_left _ _

/-- The pieces of a text that does not start a value. -/
def scanRest : List Char → List Piece
  | [] => []
  | c :: cs =>
    match Operator.ofChar? c with
    | none => Piece.consGap c (scanRest cs)
    | some op =>
      match h : splitTerm? cs with
      | none => Piece.consGap c (scanRest cs)
      | some (term, rest) =>
        have := length_le_of_splitTerm? h
        .term (some op) term :: scanRest rest
termination_by cs => cs.length

/-- The pieces of a value. -/
def scan (text : List Char) : List Piece :=
  match splitTerm? text with
  | none => scanRest text
  | some (term, rest) => .term none term :: scanRest rest

theorem flatten_consGap (c : Char) (pieces : List Piece) :
    (Piece.consGap c pieces).flatMap Piece.text = c :: pieces.flatMap Piece.text := by
  unfold Piece.consGap
  split <;> simp [Piece.text]

theorem flatten_scanRest (text : List Char) :
    (scanRest text).flatMap Piece.text = text := by
  fun_induction scanRest text with
  | case1 => rfl
  | case2 c cs hop ih => rw [flatten_consGap, ih]
  | case3 c cs op hop hsplit ih => rw [flatten_consGap, ih]
  | case4 c cs op hop term rest hsplit hle ih =>
    rw [List.flatMap_cons, ih, Piece.text, Operator.toChar_of_ofChar? hop, List.cons_append,
      splitTerm?_append hsplit]

/-- The pieces of a value, joined, are the value. -/
theorem flatten_scan (text : List Char) : (scan text).flatMap Piece.text = text := by
  unfold scan
  split
  · exact flatten_scanRest text
  · rename_i term rest hsplit
    rw [List.flatMap_cons, flatten_scanRest, Piece.text, splitTerm?_append hsplit]

end DesignTokens
