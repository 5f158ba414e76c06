import DesignTokens.Host.Basic
import DesignTokens.Host.FileStore

set_option autoImplicit false

/-! # The host in memory

A host whose files are a `FileStore` and whose log is a list.
-/

namespace DesignTokens

/-- What a host in memory works on. -/
structure MemoryState where
  files : FileStore
  /-- The reported events, in order. -/
  events : List Event

/-- The host in memory with this standard input, which is not a terminal. -/
def Host.memory (stdin : Except String String) : Host (StateM MemoryState) where
  log event := modify fun s => { s with events := s.events ++ [event] }
  stdinIsTerminal := pure false
  readStdin := pure stdin
  readFile path := do return ((← get).files.read path).mapError FileError.message
  createDirectories path := modifyGet fun s =>
    let (files, result) := s.files.createDirectories path
    (result.mapError FileError.message, { s with files })
  writeFile path content := modifyGet fun s =>
    match s.files.write path content with
    | .ok files => (.ok (), { s with files })
    | .error error => (.error error.message, s)

end DesignTokens
