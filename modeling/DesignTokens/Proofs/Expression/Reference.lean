import DesignTokens.Proofs.Expression.Scanning

set_option autoImplicit false

/-! # Expressions that are a reference

The text `referenceTo path` is a path in braces. If the path has path characters only, the
text is read as a single reference (`Expression.parse_referenceTo`): path characters are
neither blanks, which would be stripped, nor parentheses. All references that are read have
this form (`Expression.exists_referenceTo_of_parse`), so their paths tell them apart.
-/

namespace DesignTokens

/-! ## Blanks -/

/-- The codes of the blanks. -/
def blankCodes : List Nat :=
  [0x09, 0x0A, 0x0B, 0x0C, 0x0D, 0x20, 0x85, 0xA0, 0x1680, 0x2000, 0x2001, 0x2002, 0x2003,
    0x2004, 0x2005, 0x2006, 0x2007, 0x2008, 0x2009, 0x200A, 0x2028, 0x2029, 0x202F, 0x205F,
    0x3000]

theorem toNat_mem_blankCodes {c : Char} (h : isBlank c = true) : c.toNat ∈ blankCodes := by
  simp only [isBlank, Bool.or_eq_true, Bool.and_eq_true, decide_eq_true_eq, beq_iff_eq] at h
  simp only [blankCodes, List.mem_cons, List.not_mem_nil]
  omega

/-- A path character is no blank. -/
theorem isBlank_of_isPathChar {c : Char} (h : isPathChar c = true) : isBlank c = false := by
  have hcodes : (blankCodes.all fun n => !isPathChar (Char.ofNat n)) = true := by decide +kernel
  rw [Bool.eq_false_iff]
  intro hblank
  have hpath := List.all_eq_true.mp hcodes c.toNat (toNat_mem_blankCodes hblank)
  rw [Char.ofNat_toNat, h] at hpath
  cases hpath

theorem isBlank_of_isTermChar {c : Char} (h : isTermChar c = true) : isBlank c = false := by
  rw [isTermChar, Bool.or_eq_true, beq_iff_eq] at h
  rcases h with hpath | rfl
  · exact isBlank_of_isPathChar hpath
  · decide

theorem ne_parenthesis_of_isTermChar {c : Char} (h : isTermChar c = true) : c ≠ '(' := by
  rintro rfl
  exact absurd h (by decide)

/-! ## References -/

/-- A path as a reference is written. -/
def referenceTo (path : String) : String := "\x7b" ++ path ++ "\x7d"

/-- The expression that consists of a reference. -/
def Expression.ofReference (reference : String) : Expression :=
  ⟨reference, [.reference reference], true⟩

@[simp] theorem Expression.atoms_ofReference (reference : String) :
    (ofReference reference).atoms = [.reference reference] := rfl

@[simp] theorem Expression.references_ofReference (reference : String) :
    (ofReference reference).references = [reference] := rfl

variable {path : String}

theorem toList_referenceTo (path : String) :
    (referenceTo path).toList = '{' :: (path.toList ++ ['}']) := by
  simp [referenceTo]

/-- The path in braces is what a reference stands for. -/
theorem stripBraces_referenceTo (path : String) : stripBraces (referenceTo path) = path := by
  unfold stripBraces
  rw [toList_referenceTo]
  simp

/-- A path of path characters in braces has no blanks and no parentheses. -/
theorem forall_mem_referenceTo (hpath : ∀ c ∈ path.toList, isPathChar c = true) :
    ∀ c ∈ (referenceTo path).toList, c ≠ '(' ∧ isBlank c = false := by
  intro c hc
  rw [toList_referenceTo, List.mem_cons, List.mem_append, List.mem_singleton] at hc
  rcases hc with rfl | hc | rfl
  · decide
  · have hterm := isTermChar_of_isPathChar (hpath c hc)
    exact ⟨ne_parenthesis_of_isTermChar hterm, isBlank_of_isTermChar hterm⟩
  · decide

theorem termWord_referenceTo (hne : path ≠ "") (hpath : ∀ c ∈ path.toList, isPathChar c = true) :
    TermWord (referenceTo path).toList (.reference (referenceTo path)) := by
  have hterm := TermWord.reference (by simpa using hne : path.toList ≠ []) hpath
  rwa [← toList_referenceTo, String.ofList_toList] at hterm

/-- A path of path characters in braces is a single reference. -/
theorem Expression.parse_referenceTo (hne : path ≠ "")
    (hpath : ∀ c ∈ path.toList, isPathChar c = true) :
    parse (referenceTo path) = .ok (.ofReference (referenceTo path)) := by
  -- a reference without operators is a formula of one term
  have hword := FormulaWord.plain (termWord_referenceTo hne hpath) .nil
  rw [List.append_nil] at hword
  exact parse_of_formulaWord (forall_mem_referenceTo hpath) hword

/-! ## References that were read -/

/-- Only a path in braces is read as a reference. -/
theorem Atom.exists_referenceTo_of_ofTerm {term : List Char} {r : String}
    (h : ofTerm term = .reference r) : ∃ path, r = referenceTo path := by
  have hword : TermWord term (.reference r) := by
    rw [← h]
    exact termWord_ofTerm (by rw [h]; rfl)
  cases hword with
  | @reference path _ _ =>
      refine ⟨String.ofList path, ?_⟩
      rw [← String.toList_inj, toList_referenceTo, String.toList_ofList, String.toList_ofList]

theorem Piece.exists_referenceTo_of_mem {piece : Piece} {r : String}
    (h : .reference r ∈ piece.atoms) : ∃ path, r = referenceTo path := by
  cases piece with
  | gap text => simp [atoms] at h
  | term op text =>
      have hterm : Atom.ofTerm text = .reference r := by
        cases op with
        | none => exact (List.mem_singleton.mp h).symm
        | some op => simpa [atoms, eq_comm] using h
      exact Atom.exists_referenceTo_of_ofTerm hterm

/-- The references of an expression that was read are paths in braces. -/
theorem Expression.exists_referenceTo_of_parse {text : String} {e : Expression}
    (h : parse text = .ok e) {r : String} (hr : r ∈ e.references) :
    ∃ path, r = referenceTo path := by
  have hatoms : e.atoms = atomsOf e.source.toList := by
    unfold parse at h
    split at h
    · cases h
    · cases h
      rfl
  obtain ⟨atom, hatom, hreference⟩ := List.mem_filterMap.mp hr
  rw [hatoms, atomsOf, List.mem_flatMap] at hatom
  obtain ⟨piece, -, hpiece⟩ := hatom
  cases atom with
  | reference text =>
      cases hreference
      exact piece.exists_referenceTo_of_mem hpiece
  | operator op => cases hreference
  | number value unit text => cases hreference
  | verbatim text => cases hreference

end DesignTokens
