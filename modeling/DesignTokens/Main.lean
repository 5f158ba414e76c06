import DesignTokens.Program

set_option autoImplicit false

/-! # The executable

The host of the operating system, and the entry point of the program.
-/

namespace DesignTokens

/-- The outcome of an action, with a failure explained. -/
def explained {α : Type} (action : IO α) : IO (Except String α) := do
  match ← action.toBaseIO with
  | .ok value => return .ok value
  | .error error => return .error (toString error)

/-- The bytes of a stream up to its end, after those already read. -/
partial def readToEnd (stream : IO.FS.Stream) (bytes : ByteArray) : IO ByteArray := do
  let chunk ← stream.read 65536
  if chunk.isEmpty then return bytes
  readToEnd stream (bytes ++ chunk)

/-- All of standard input, as text. -/
def readStandardInput : IO String := do
  let bytes ← readToEnd (← IO.getStdin) .empty
  match String.fromUTF8? bytes with
  | some text => return text
  | none => throw (IO.userError "stream did not contain valid UTF-8")

/-- The line that an event is logged as. -/
def Event.line (event : Event) : String :=
  let fields := event.fields.map fun (name, value) => " " ++ name ++ "=" ++ value
  event.level.name ++ " " ++ event.message ++ String.join fields

/-- The host of the operating system; events are logged to standard error. -/
def Host.system : Host IO where
  log event := IO.eprintln event.line
  stdinIsTerminal := do (← IO.getStdin).isTty
  readStdin := explained readStandardInput
  readFile path := explained (IO.FS.readFile path)
  createDirectories path := explained (if path.isEmpty then pure () else IO.FS.createDirAll path)
  writeFile path content := explained (IO.FS.writeFile path content)

end DesignTokens

/-- Runs the program on the operating system. -/
def main (arguments : List String) : IO UInt32 := do
  let exit ← DesignTokens.Program.run DesignTokens.Host.system arguments
  IO.print exit.stdout
  IO.eprint exit.stderr
  return exit.code.toUInt32
