import DesignTokens.Text.Word
import DesignTokens.Tree.Path

set_option autoImplicit false

/-! # Paths and their segments

Joining segments by points and splitting at points are inverse to each other where no
segment is empty or holds a point. A key is *plain* if it has word characters and `#` only;
a path of plain keys is one that a reference can be written with.
-/

namespace DesignTokens

variable {parts more : List String} {key : String}

@[simp] theorem joinSegments_nil : joinSegments [] = "" := String.intercalate_nil

@[simp] theorem joinSegments_singleton : joinSegments [key] = key := String.intercalate_singleton

theorem joinSegments_cons (hmore : more ≠ []) :
    joinSegments (key :: more) = key ++ "." ++ joinSegments more :=
  String.intercalate_cons_of_ne_nil hmore

theorem joinSegments_append (hparts : parts ≠ []) (hmore : more ≠ []) :
    joinSegments (parts ++ more) = joinSegments parts ++ "." ++ joinSegments more :=
  String.intercalate_append_of_ne_nil hparts hmore

/-- The path of the value of a scalar token. -/
theorem joinSegments_value (hparts : parts ≠ []) :
    joinSegments (parts ++ ["value"]) = joinSegments parts ++ ".value" := by
  rw [joinSegments_append hparts (List.cons_ne_nil _ _), joinSegments_singleton,
    String.append_assoc]
  rfl

/-- The path of a member of a composite token. -/
theorem joinSegments_member (hparts : parts ≠ []) :
    joinSegments (parts ++ ["value", key]) = joinSegments parts ++ ".value." ++ key := by
  rw [joinSegments_append hparts (List.cons_ne_nil _ _), joinSegments_cons (List.cons_ne_nil _ _),
    joinSegments_singleton]
  simp only [String.append_assoc]
  rfl

theorem joinSegments_ne_empty (hne : parts ≠ []) (hparts : ∀ part ∈ parts, part ≠ "") :
    joinSegments parts ≠ "" := by
  obtain ⟨first, rest, rfl⟩ := List.exists_cons_of_ne_nil hne
  have hfirst : first ≠ "" := hparts first List.mem_cons_self
  by_cases hrest : rest = []
  · rw [hrest, joinSegments_singleton]
    exact hfirst
  · rw [joinSegments_cons hrest]
    simp [hfirst]

/-- The keys that lead to an entry are not empty if those that lead to its group are not. -/
theorem forall_ne_empty_concat {key : String} (hparts : ∀ part ∈ parts, part ≠ "")
    (hkey : key ≠ "") : ∀ part ∈ parts ++ [key], part ≠ "" :=
  List.forall_mem_append.mpr ⟨hparts, List.forall_mem_singleton.mpr hkey⟩

/-- The path of an entry is the path of its group with its key after it. -/
theorem childPath_joinSegments (hparts : ∀ part ∈ parts, part ≠ "") (key : String) :
    childPath (joinSegments parts) key = joinSegments (parts ++ [key]) := by
  by_cases hne : parts = []
  · simp [hne]
  · have hjoin : joinSegments parts ≠ "" := joinSegments_ne_empty hne hparts
    rw [childPath, if_neg (by simpa using hjoin), joinSegments_append hne (List.cons_ne_nil _ _),
      joinSegments_singleton]

/-- Splitting a joined path gives its segments back. -/
theorem segments_joinSegments (hne : parts ≠ []) (hparts : ∀ part ∈ parts, '.' ∉ part.toList) :
    segments (joinSegments parts) = parts := by
  have hpoints : ∀ chars ∈ parts.map String.toList, '.' ∉ chars := by
    intro chars hchars
    obtain ⟨part, hpart, rfl⟩ := List.mem_map.mp hchars
    exact hparts part hpart
  have hsplit : (joinSegments parts).toList.splitOn '.' = parts.map String.toList := by
    rw [joinSegments, String.toList_intercalate]
    exact List.splitOn_intercalate '.' hpoints (by simpa using hne)
  rw [segments, hsplit, List.map_map]
  simp

theorem segments_append (path path' : String) :
    segments (path ++ "." ++ path') = segments path ++ segments path' := by
  have hchars : (path ++ "." ++ path').toList = path.toList ++ '.' :: path'.toList := by
    simp
  rw [segments, hchars, List.splitOn_append_cons_self, List.map_append]
  rfl

theorem segments_eq_singleton (h : '.' ∉ key.toList) : segments key = [key] := by
  rw [segments, List.splitOn_eq_singleton h, List.map_singleton, String.ofList_toList]

theorem segments_value (path : String) : segments (path ++ ".value") = segments path ++ ["value"] := by
  have hpath : path ++ ".value" = path ++ "." ++ "value" := by
    rw [String.append_assoc]
    rfl
  have hvalue : segments "value" = ["value"] := segments_eq_singleton (by decide)
  rw [hpath, segments_append, hvalue]

/-- The characters of a path are those of its segments, and points. -/
theorem mem_joinSegments {c : Char} (h : c ∈ (joinSegments parts).toList) :
    c = '.' ∨ ∃ part ∈ parts, c ∈ part.toList := by
  induction parts with
  | nil => simp at h
  | cons part parts ih =>
      by_cases hne : parts = []
      · subst hne
        exact Or.inr ⟨part, List.mem_cons_self, by simpa using h⟩
      · rw [joinSegments_cons hne, String.toList_append, String.toList_append, List.mem_append,
          List.mem_append] at h
        rcases h with (h | h) | h
        · exact Or.inr ⟨part, List.mem_cons_self, h⟩
        · exact Or.inl (List.mem_singleton.mp h)
        · rcases ih h with h | ⟨other, hother, h⟩
          · exact Or.inl h
          · exact Or.inr ⟨other, List.mem_cons_of_mem _ hother, h⟩

/-- A key of one or more word characters and `#`. -/
def isPlainKey (key : String) : Bool :=
  !key.isEmpty && key.toList.all fun c => isWordChar c || c == '#'

theorem isPlainKey_iff :
    isPlainKey key = true ↔
      key ≠ "" ∧ ∀ c ∈ key.toList, isWordChar c = true ∨ c = '#' := by
  simp [isPlainKey]

/-- A plain key has no points. -/
theorem notMem_of_isPlainKey (h : isPlainKey key = true) : '.' ∉ key.toList := by
  intro hpoint
  rcases (isPlainKey_iff.mp h).2 '.' hpoint with hword | hhash
  · exact absurd hword (by decide)
  · exact absurd hhash (by decide)

/-- The path of plain keys has path characters only. -/
theorem isPathChar_of_mem_joinSegments (hparts : ∀ part ∈ parts, isPlainKey part = true) :
    ∀ c ∈ (joinSegments parts).toList, isPathChar c = true := by
  intro c hc
  rcases mem_joinSegments hc with rfl | ⟨part, hpart, hc⟩
  · decide
  · rcases (isPlainKey_iff.mp (hparts part hpart)).2 c hc with hword | rfl
    · exact isPathChar_of_isWordChar hword
    · decide

end DesignTokens
