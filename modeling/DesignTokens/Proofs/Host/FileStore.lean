import DesignTokens.Host.FileStore
import DesignTokens.Traced
import Mathlib.Tactic.SplitIfs

set_option autoImplicit false

/-! # Laws of files in memory

A store that keeps the directories of another leads the same way through them
(`enter_of_keepsDirectories`), so a path that named a place goes on naming it. From this
follow the laws that a program relies on: what was written is read back (`read_of_write`), and
creating the same directories or writing the same file again changes nothing
(`createDirectories_again`, `write_again`). `SameApartFrom` bounds what an operation changes.
-/

namespace DesignTokens.FileStore

variable {store store' later : FileStore} {place : List String} {path content : String}

/-! ## What an operation changes -/

/-- The directories of a store are directories of another, with the same working directory. -/
structure KeepsDirectories (before after : FileStore) : Prop where
  workingDirectory : after.workingDirectory = before.workingDirectory
  directory : ∀ place, before.node? place = some .directory → after.node? place = some .directory

/-- Apart from some places, two stores differ only in directories that the second has and the
first lacks. -/
structure SameApartFrom (places : List (List String)) (before after : FileStore) : Prop where
  workingDirectory : after.workingDirectory = before.workingDirectory
  node : ∀ place ∉ places, after.node? place = before.node? place ∨
    (before.node? place = none ∧ after.node? place = some .directory)

theorem KeepsDirectories.trans (h : KeepsDirectories store store')
    (h' : KeepsDirectories store' later) : KeepsDirectories store later where
  workingDirectory := h'.workingDirectory.trans h.workingDirectory
  directory place hplace := h'.directory place (h.directory place hplace)

theorem SameApartFrom.refl (places : List (List String)) (store : FileStore) :
    SameApartFrom places store store :=
  ⟨rfl, fun _ _ => Or.inl rfl⟩

theorem SameApartFrom.trans {places places' : List (List String)}
    (h : SameApartFrom places store store') (h' : SameApartFrom places' store' later) :
    SameApartFrom (places ++ places') store later where
  workingDirectory := h'.workingDirectory.trans h.workingDirectory
  node place hplace := by
    rw [List.mem_append, not_or] at hplace
    -- what is new after the second step was missing after the first, so the first did not make it
    rcases h'.node place hplace.2 with hsame | ⟨hnone, hnew⟩
    · rw [hsame]
      exact h.node place hplace.1
    · rcases h.node place hplace.1 with hsame | ⟨-, hdirectory⟩
      · exact Or.inr ⟨hsame ▸ hnone, hnew⟩
      · rw [hnone] at hdirectory
        cases hdirectory

theorem SameApartFrom.keepsDirectories (h : SameApartFrom [] store store') :
    KeepsDirectories store store' where
  workingDirectory := h.workingDirectory
  directory place hplace := by
    rcases h.node place List.not_mem_nil with hsame | ⟨-, hnew⟩
    · rw [hsame, hplace]
    · exact hnew

theorem sameApartFrom_put (store : FileStore) (place : List String) (node : FileNode) :
    SameApartFrom [place] store (store.put place node) where
  workingDirectory := rfl
  node _ hother := Or.inl (node?_put_of_ne node (List.ne_of_not_mem_cons hother))

/-- Where no directory stands, anything may be put. -/
theorem keepsDirectories_put (node : FileNode) (h : store.node? place ≠ some .directory) :
    KeepsDirectories store (store.put place node) where
  workingDirectory := rfl
  directory other hother := by
    have hne : other ≠ place := by
      rintro rfl
      exact h hother
    rw [node?_put_of_ne node hne, hother]

/-! ## Following a path -/

/-- A part that names a directory leads into it. -/
theorem enter_directory {part : String} (parts : List String)
    (hstay : ¬(part = "" ∨ part = ".")) (hup : part ≠ "..")
    (hnode : store.node? (place ++ [part]) = some .directory) :
    store.enter place (part :: parts) = store.enter (place ++ [part]) parts := by
  rw [enter, if_neg hstay, if_neg hup, hnode]

/-- The way through directories is the same where they are kept. -/
theorem enter_of_keepsDirectories (hkeeps : KeepsDirectories store store') {parts : List String}
    {reached : List String} (h : store.enter place parts = .ok reached) :
    store'.enter place parts = .ok reached := by
  fun_induction store.enter place parts with
  | case1 => exact h
  | case2 place part rest hstay ih => rw [enter, if_pos hstay, ih h]
  | case3 place rest hstay ih => rw [enter, if_neg hstay, if_pos rfl, ih h]
  | case4 place part rest hstay hup hnode ih =>
      rw [enter_directory rest hstay hup (hkeeps.directory _ hnode), ih h]
  | case5 | case6 => cases h

/-- What of a path to a file does not depend on the files: it is neither empty nor too long,
and ends in a name that a file may have. -/
structure EndsInName (path name : String) : Prop where
  last : (parts path).getLast? = some name
  nonempty : ¬path.isEmpty
  short : ¬maxPathSize < path.utf8ByteSize
  isName : ¬(name = "" ∨ name = "." ∨ name = "..")
  isValid : ¬!isValidName name

theorem filePlace_eq_ok_iff : store.filePlace path = .ok place ↔
    ∃ name directory, EndsInName path name ∧
      store.enter (store.start path) (parts path).dropLast = .ok directory ∧
      place = directory ++ [name] := by
  constructor
  · intro h
    simp only [filePlace] at h
    split at h
    · cases h
    · rename_i name hlast
      split_ifs at h with hempty hlong hspecial hvalid
      obtain ⟨directory, henter, hplace⟩ := except_bind_eq_ok_iff.mp h
      exact ⟨name, directory, ⟨hlast, hempty, hlong, hspecial, hvalid⟩, henter,
        (Except.ok.inj hplace).symm⟩
  · rintro ⟨name, directory, hname, henter, rfl⟩
    simp only [filePlace, hname.last, hname.nonempty, hname.short, hname.isName, hname.isValid,
      henter, if_false]
    rfl

theorem filePlace_of_keepsDirectories (hkeeps : KeepsDirectories store store')
    (h : store.filePlace path = .ok place) : store'.filePlace path = .ok place := by
  obtain ⟨name, directory, hname, henter, hplace⟩ := filePlace_eq_ok_iff.mp h
  refine filePlace_eq_ok_iff.mpr
    ⟨name, directory, hname, enter_of_keepsDirectories hkeeps ?_, hplace⟩
  rw [start, hkeeps.workingDirectory]
  exact henter

theorem filePlace_ne_nil (h : store.filePlace path = .ok place) : place ≠ [] := by
  obtain ⟨name, directory, -, -, rfl⟩ := filePlace_eq_ok_iff.mp h
  exact List.concat_ne_nil _ _

/-! ## Writing files -/

theorem write_eq_ok_iff : store.write path content = .ok store' ↔
    ∃ place, store.filePlace path = .ok place ∧ store.node? place ≠ some .directory ∧
      store' = store.put place (.file content) := by
  refine except_bind_eq_ok_iff.trans (exists_congr fun place => and_congr_right fun _ => ?_)
  split
  · simp_all
  · simp_all [eq_comm]

/-- Writing changes what stands at one place. -/
theorem exists_sameApartFrom_of_write (h : store.write path content = .ok store') :
    ∃ place, store'.filePlace path = .ok place ∧ SameApartFrom [place] store store' := by
  obtain ⟨place, hplace, hfree, rfl⟩ := write_eq_ok_iff.mp h
  exact ⟨place, filePlace_of_keepsDirectories (keepsDirectories_put _ hfree) hplace,
    sameApartFrom_put store place _⟩

theorem keepsDirectories_of_write (h : store.write path content = .ok store') :
    KeepsDirectories store store' := by
  obtain ⟨place, -, hfree, rfl⟩ := write_eq_ok_iff.mp h
  exact keepsDirectories_put _ hfree

/-- What was written is read. -/
theorem read_of_write (h : store.write path content = .ok store') :
    store'.read path = .ok content := by
  obtain ⟨place, hplace, hfree, rfl⟩ := write_eq_ok_iff.mp h
  refine except_bind_eq_ok_iff.mpr
    ⟨place, filePlace_of_keepsDirectories (keepsDirectories_put _ hfree) hplace, ?_⟩
  rw [node?_put_self (filePlace_ne_nil hplace)]

theorem put_put (store : FileStore) (place : List String) (node : FileNode) :
    (store.put place node).put place node = store.put place node := by
  simp [put]

/-- Writing the same again changes nothing. -/
theorem write_again (h : store.write path content = .ok store') :
    store'.write path content = .ok store' := by
  obtain ⟨place, hplace, hfree, rfl⟩ := write_eq_ok_iff.mp h
  refine write_eq_ok_iff.mpr
    ⟨place, filePlace_of_keepsDirectories (keepsDirectories_put _ hfree) hplace, ?_,
      (put_put store place _).symm⟩
  rw [node?_put_self (filePlace_ne_nil hplace)]
  rintro ⟨⟩

/-! ## Creating directories -/

/-- A directory put where nothing stood is all that is new. -/
theorem sameApartFrom_put_directory (h : store.node? place = none) :
    SameApartFrom [] store (store.put place .directory) where
  workingDirectory := rfl
  node other _ := by
    by_cases hother : other = place
    · subst hother
      have hne : other ≠ [] := by
        rintro rfl
        cases h
      exact Or.inr ⟨h, node?_put_self hne⟩
    · exact Or.inl (node?_put_of_ne _ hother)

theorem createAlong_sameApartFrom (store : FileStore) (place parts : List String) :
    SameApartFrom [] store (store.createAlong place parts).1 := by
  fun_induction store.createAlong place parts with
  | case1 => exact .refl _ _
  | case2 _ _ _ _ _ ih | case3 _ _ _ _ ih | case4 _ _ _ _ _ _ _ _ ih => exact ih
  | case5 | case6 | case8 => exact .refl _ _
  | case7 store place part rest hstay hup next hnode hdot hvalid ih =>
      exact (sameApartFrom_put_directory hnode).trans ih

/-- A part that names a directory needs nothing created. -/
theorem createAlong_directory {part : String} (parts : List String)
    (hstay : ¬(part = "" ∨ part = ".")) (hup : part ≠ "..")
    (hnode : store.node? (place ++ [part]) = some .directory) :
    store.createAlong place (part :: parts) = store.createAlong (place ++ [part]) parts := by
  rw [createAlong, if_neg hstay, if_neg hup]
  simp only [hnode]

/-- Once created, directories need not be created again. -/
theorem createAlong_again {parts : List String} (h : (store.createAlong place parts).2 = .ok ())
    (hkeeps : KeepsDirectories (store.createAlong place parts).1 later) :
    later.createAlong place parts = (later, .ok ()) := by
  -- what the rest creates only adds directories, so the one entered here is there later
  fun_induction store.createAlong place parts with
  | case1 => rfl
  | case2 store place part rest hstay ih => rw [createAlong, if_pos hstay, ih h hkeeps]
  | case3 store place rest hstay ih =>
      rw [createAlong, if_neg hstay, if_pos rfl, ih h hkeeps]
  | case4 store place part rest hstay hup next hnode ih =>
      have hlater : later.node? (place ++ [part]) = some .directory :=
        hkeeps.directory _ ((createAlong_sameApartFrom _ _ _).keepsDirectories.directory _ hnode)
      rw [createAlong_directory rest hstay hup hlater, ih h hkeeps]
  | case7 store place part rest hstay hup next hnode hdot hvalid ih =>
      have hnew : (store.put next .directory).node? next = some .directory :=
        node?_put_self (List.concat_ne_nil _ _)
      have hlater : later.node? (place ++ [part]) = some .directory :=
        hkeeps.directory _ ((createAlong_sameApartFrom _ _ _).keepsDirectories.directory _ hnew)
      rw [createAlong_directory rest hstay hup hlater, ih h hkeeps]
  | case5 | case6 | case8 => cases h

theorem createDirectories_sameApartFrom (store : FileStore) (path : String) :
    SameApartFrom [] store (store.createDirectories path).1 := by
  unfold createDirectories
  split_ifs
  · exact .refl _ _
  · exact createAlong_sameApartFrom _ _ _

theorem createDirectories_again (h : store.createDirectories path = (store', .ok ()))
    (hkeeps : KeepsDirectories store' later) :
    later.createDirectories path = (later, .ok ()) := by
  have hbefore : KeepsDirectories store store' := by
    have hsame := (createDirectories_sameApartFrom store path).keepsDirectories
    rwa [h] at hsame
  have hstart : later.start path = store.start path := by
    rw [start, start, (hbefore.trans hkeeps).workingDirectory]
  unfold createDirectories at h ⊢
  split_ifs at h ⊢
  · cases h
  · rw [hstart]
    refine createAlong_again (by rw [h]) ?_
    rw [h]
    exact hkeeps

end DesignTokens.FileStore
