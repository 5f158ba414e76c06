set_option autoImplicit false

/-! # Files in memory

A file store holds directories and files under a root, and has a working directory that
paths without a leading slash start from. A path is followed part by part: `.` and empty
parts stay where they are, `..` goes up, and any other part has to name a directory.
-/

namespace DesignTokens

/-- What stands at a place. -/
inductive FileNode
  | directory
  | file (content : String)
  deriving DecidableEq, Repr

/-- Why an operation on files failed. -/
inductive FileError
  | notFound
  | notADirectory
  | isADirectory
  | invalidName
  | pathTooLong
  deriving DecidableEq, Repr

/-- The explanation of a file error. -/
def FileError.message : FileError → String
  | notFound => "No such file or directory"
  | notADirectory => "Not a directory"
  | isADirectory => "Is a directory"
  | invalidName => "Invalid file name"
  | pathTooLong => "File name too long"

/-- Places are lists of names from the root; the root itself is always a directory. -/
structure FileStore where
  nodes : List (List String × FileNode)
  workingDirectory : List String
  deriving DecidableEq, Repr

namespace FileStore

/-- The longest name of a file or directory, in bytes. -/
def maxNameSize : Nat := 255

/-- The longest path, in bytes. -/
def maxPathSize : Nat := 4095

/-- Whether a file or directory may have a name. -/
def isValidName (name : String) : Bool :=
  name.utf8ByteSize ≤ maxNameSize && !name.toList.contains (Char.ofNat 0)

/-- What stands at a place, if anything does. -/
def node? (store : FileStore) (place : List String) : Option FileNode :=
  if place.isEmpty then some .directory else store.nodes.lookup place

/-- Puts a directory or file at a place. -/
def put (store : FileStore) (place : List String) (node : FileNode) : FileStore :=
  { store with nodes := (place, node) :: store.nodes.filter fun entry => entry.1 != place }

/-- The parts of a path between its slashes. -/
def parts (path : String) : List String := (path.toList.splitOn '/').map String.ofList

/-- The place a path starts from. -/
def start (store : FileStore) (path : String) : List String :=
  if path.toList.head? = some '/' then [] else store.workingDirectory

/-- The directory reached from a place by the parts of a path. -/
def enter (store : FileStore) (place : List String) : List String → Except FileError (List String)
  | [] => .ok place
  | part :: rest =>
    if part = "" ∨ part = "." then store.enter place rest
    else if part = ".." then store.enter place.dropLast rest
    else
      match store.node? (place ++ [part]) with
      | some .directory => store.enter (place ++ [part]) rest
      | some (.file _) => .error .notADirectory
      | none => .error .notFound

/-- The place a path names, in a directory that exists. -/
def filePlace (store : FileStore) (path : String) : Except FileError (List String) :=
  let parts := parts path
  match parts.getLast? with
  | none => .error .notFound
  | some name =>
    if path.isEmpty then .error .notFound
    else if maxPathSize < path.utf8ByteSize then .error .pathTooLong
    else if name = "" ∨ name = "." ∨ name = ".." then .error .isADirectory
    else if !isValidName name then .error .invalidName
    else do return (← store.enter (store.start path) parts.dropLast) ++ [name]

/-- The content of a file. -/
def read (store : FileStore) (path : String) : Except FileError String := do
  match store.node? (← store.filePlace path) with
  | some (.file content) => .ok content
  | some .directory => .error .isADirectory
  | none => .error .notFound

/-- The store with a file written. -/
def write (store : FileStore) (path content : String) : Except FileError FileStore := do
  let place ← store.filePlace path
  match store.node? place with
  | some .directory => .error .isADirectory
  | _ => .ok (store.put place (.file content))

/-- Whether the rest of a path ends the name before it with a `.`, as in `name/.`. -/
def endsWithDot (rest : List String) : Bool :=
  rest.contains "." && rest.all fun part => part == "" || part == "."

/-- Creates the directories along the parts of a path that are missing; a directory at the
end that is named with a `.` after it has to exist. Those created before a failure stay. -/
def createAlong (store : FileStore) (place : List String) :
    List String → FileStore × Except FileError Unit
  | [] => (store, .ok ())
  | part :: rest =>
    if part = "" ∨ part = "." then store.createAlong place rest
    else if part = ".." then store.createAlong place.dropLast rest
    else
      let next := place ++ [part]
      match store.node? next with
      | some .directory => store.createAlong next rest
      | some (.file _) => (store, .error .notADirectory)
      | none =>
        if endsWithDot rest then (store, .error .notFound)
        else if isValidName part then (store.put next .directory).createAlong next rest
        else (store, .error .invalidName)

/-- Creates a directory, and the directories it stands in, where they are missing. -/
def createDirectories (store : FileStore) (path : String) : FileStore × Except FileError Unit :=
  if maxPathSize < path.utf8ByteSize then (store, .error .pathTooLong)
  else store.createAlong (store.start path) (parts path)

@[simp] theorem node?_put_self {store : FileStore} {place : List String} {node : FileNode}
    (h : place ≠ []) : (store.put place node).node? place = some node := by
  simp [put, node?, h]

theorem node?_put_of_ne {store : FileStore} {place other : List String} (node : FileNode)
    (h : other ≠ place) : (store.put place node).node? other = store.node? other := by
  unfold node? put
  split
  · rfl
  · simp only [List.lookup_cons, beq_eq_false_iff_ne.mpr h]
    induction store.nodes with
    | nil => rfl
    | cons entry nodes ih =>
      obtain ⟨place', node'⟩ := entry
      by_cases he : place' = place
      · simp [he, ih, List.lookup_cons, beq_eq_false_iff_ne.mpr h]
      · simp [he, ih, List.lookup_cons]

end FileStore

end DesignTokens
