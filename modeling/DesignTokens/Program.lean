import DesignTokens.CommandLine.Request
import DesignTokens.Commands

set_option autoImplicit false

/-! # The program

`Program.run` carries out a command line on a host and says what to print and how to exit:
with 0 after success, with 1 after a failed command, and with 2 if the command line makes
no sense.
-/

namespace DesignTokens

/-- How the program ends. -/
structure Exit where
  code : Nat
  stdout : String
  stderr : String
  deriving DecidableEq, Repr

namespace Program

/-- The name and version. -/
def versionText : String := "quarksy 0.2.0\n"

/-- How to use the program. -/
def helpText : String :=
  "Quarksy - transforms design tokens to code

Usage: quarksy [OPTIONS] <COMMAND>

Commands:
  build  Transform a tokens file into platform files
  get    Print the resolved value of one token
  help   Print this message or the help of the given subcommand(s)

Options:
  -v, --verbose  Log resolution details to stderr
  -h, --help     Print help
  -V, --version  Print version
"

/-- The file that is read in place of a terminal. -/
def defaultInput : String := "tokens.json"

section

variable {m : Type → Type} [Monad m]

/-- The text of the input: a file, standard input, or the default file. -/
def readInput (host : Host m) (input : Option String) : ExceptT CommandError m String := do
  match input with
  | some path => readPath path
  | none =>
    if ← host.stdinIsTerminal then readPath defaultInput
    else
      host.log .readingStdin
      MonadExcept.ofExcept ((← host.readStdin).mapError .stdin)
where
  /-- The text of a file. -/
  readPath (path : String) : ExceptT CommandError m String := do
    host.log (.readingFile path)
    onFile path (host.readFile path)

/-- Carries out a request and returns what to print. -/
def carryOut (host : Host m) : Request → ExceptT CommandError m String
  | .build input platforms stylesheet outputDirectory => do
    let input ← readInput host input
    let written ← build host ⟨input, platforms, stylesheet, outputDirectory⟩
    let lines := written.map fun path => " - " ++ path ++ "\n"
    return "Generated platforms files:\n" ++ String.join lines
  | .get key input => do
    let input ← readInput host input
    return (← host.perform .tokens (TokenSet.valueInText input key)) ++ "\n"

/-- Runs the program. -/
def run (host : Host m) (arguments : List String) : m Exit := do
  match Invocation.ofArguments arguments with
  | .error .help => return ⟨0, helpText, ""⟩
  | .error .version => return ⟨0, versionText, ""⟩
  | .error (.usage error) => return ⟨2, "", "error: " ++ error.message ++ "\n"⟩
  | .ok invocation =>
    let host := host.atLevel (if invocation.verbose then .debug else .warn)
    match ← (carryOut host invocation.request).run with
    | .ok text => return ⟨0, text, ""⟩
    | .error error => return ⟨1, "", error.message ++ "\n"⟩

end

end Program

end DesignTokens
