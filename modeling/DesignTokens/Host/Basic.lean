import DesignTokens.Traced

set_option autoImplicit false

/-! # Hosts

A host does for a command what a pure function cannot: it reads and writes files and keeps
the log. Commands take it as an argument, so the same command runs on real files and on a
store in memory. A host explains its failures in its own words.
-/

namespace DesignTokens

/-- The services a command may use. -/
structure Host (m : Type → Type) where
  /-- Reports an event. -/
  log : Event → m Unit
  /-- Whether standard input is a terminal. -/
  stdinIsTerminal : m Bool
  /-- All of standard input. -/
  readStdin : m (Except String String)
  /-- The content of a file. -/
  readFile : (path : String) → m (Except String String)
  /-- Creates a directory, and the directories it stands in, where they are missing. -/
  createDirectories : (path : String) → m (Except String Unit)
  /-- Writes a file, in place of one that is there. -/
  writeFile : (path content : String) → m (Except String Unit)

namespace Host

variable {m : Type → Type} [Monad m]

/-- The same host with a log of the events of a level and above. -/
def atLevel (host : Host m) (least : Level) : Host m :=
  { host with log := fun event => if event.isAtLeast least then host.log event else pure () }

/-- Continues with a result, after reporting its events. -/
def perform {ε ε' α : Type} (host : Host m) (wrap : ε → ε') (x : Traced ε α) :
    ExceptT ε' m α := do
  for event in x.events do
    host.log event
  MonadExcept.ofExcept (x.result.mapError wrap)

end Host

/-- The path of a file in a directory; an absolute path is kept as it is. -/
def pathInDirectory (directory file : String) : String :=
  if file.toList.head? = some '/' ∨ directory.isEmpty then file
  else if directory.toList.getLast? = some '/' then directory ++ file
  else directory ++ "/" ++ file

end DesignTokens
