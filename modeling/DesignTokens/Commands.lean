import DesignTokens.Host.Basic
import DesignTokens.Platform

set_option autoImplicit false

/-! # Commands

What the program does on behalf of a user: `build` generates the files of some platforms
from a document, and `TokenSet.valueInText` answers one key of a document. A build fails
before it touches a file, unless it is a file that it fails at.
-/

namespace DesignTokens

/-- Why a command failed. -/
inductive CommandError
  | tokens (cause : TokenError)
  | evaluation (cause : EvalError)
  /-- A file or directory could not be read or written. -/
  | file (path explanation : String)
  /-- Standard input could not be read. -/
  | stdin (explanation : String)
  | unknownPlatform (name : String)
  deriving DecidableEq, Repr

/-- The explanation of an error. -/
def CommandError.message : CommandError → String
  | tokens cause => cause.message
  | evaluation cause => "Evaluation error: " ++ cause.message
  | file path explanation => "IO error on " ++ path ++ ": " ++ explanation
  | stdin explanation => "IO error: " ++ explanation
  | unknownPlatform name => "Unknown platform: '" ++ name ++ "' (available: css)"

/-- What to build. -/
structure BuildOptions where
  /-- The text of the document. -/
  input : String
  /-- The names of the platforms. -/
  platforms : List String := ["css"]
  stylesheet : StylesheetOptions := {}
  outputDirectory : String := "."
  deriving DecidableEq, Repr

/-- The platforms with some names; the first unknown name is an error. -/
def selectPlatforms (options : StylesheetOptions) (names : List String) :
    Except CommandError (List Platform) :=
  names.mapM fun name =>
    match Platform.named? options name with
    | some platform => .ok platform
    | none => .error (.unknownPlatform name)

/-- The formatted value of a key in the text of a document. -/
def TokenSet.valueInText (input key : String) : Traced TokenError String := do
  (← TokenSet.loadText input .standard).valueFor key

section

variable {m : Type → Type} [Monad m]

/-- An effect that may fail at a path. -/
def onFile {α : Type} (path : String) (effect : m (Except String α)) :
    ExceptT CommandError m α := do
  MonadExcept.ofExcept ((← effect).mapError (.file path))

/-- Writes generated files into a directory, and returns their paths. -/
def writeOutputs (host : Host m) (directory : String) (outputs : List OutputFile) :
    ExceptT CommandError m (List String) := do
  onFile directory (host.createDirectories directory)
  outputs.mapM fun output => do
    let path := pathInDirectory directory output.name
    onFile path (host.writeFile path output.content)
    host.log (.wroteOutput path output.content.utf8ByteSize)
    return path

/-- Generates the files of the requested platforms, and returns their paths. -/
def build (host : Host m) (options : BuildOptions) : ExceptT CommandError m (List String) := do
  let platforms ← MonadExcept.ofExcept (selectPlatforms options.stylesheet options.platforms)
  let tokens ← host.perform .tokens (TokenSet.loadText options.input .standard)
  let written ← platforms.mapM fun platform => do
    host.log (.runningPlatform platform.name)
    let outputs ← host.perform .evaluation (platform.run tokens)
    writeOutputs host options.outputDirectory outputs
  return written.flatten

end

end DesignTokens
