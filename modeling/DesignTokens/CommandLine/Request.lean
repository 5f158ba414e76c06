import DesignTokens.CommandLine.Arguments
import DesignTokens.Stylesheet.OfTokens

set_option autoImplicit false

/-! # Requests

What a command line asks for: options that hold for every command, the name of a command,
and its arguments.
-/

namespace DesignTokens

/-- A command with its arguments; without a path the input is standard input. -/
inductive Request
  | build (input : Option String) (platforms : List String) (stylesheet : StylesheetOptions)
      (outputDirectory : String)
  | get (key : String) (input : Option String)
  deriving DecidableEq, Repr

/-- A request, and whether to report details on the way. -/
structure Invocation where
  verbose : Bool
  request : Request
  deriving DecidableEq, Repr

namespace Request

/-- The names of the commands. -/
def commandNames : List String := ["build", "get", "help"]

/-- The request of the arguments of `build`. -/
def ofBuildArguments (arguments : Arguments) : Request :=
  let platforms := arguments.valuesOf .platform
  let stylesheet : StylesheetOptions :=
    { variableScope := arguments.value? .variableScope
      classScope := arguments.value? .classScope }
  .build arguments.positionals.head? (if platforms.isEmpty then ["css"] else platforms) stylesheet
    ((arguments.value? .outputDirectory).getD ".")

/-- The request of the arguments of `get`. -/
def ofGetArguments (arguments : Arguments) : Except ArgumentStop Request :=
  match arguments.positionals with
  | [] => .error (.usage .missingKey)
  | key :: rest => .ok (.get key rest.head?)

end Request

namespace Invocation

/-- What is asked after the command `help`: the help on the program or on a command. -/
def helpOn : List String → ArgumentStop
  | [] => .help
  | [name] =>
    if Request.commandNames.contains name then .help else .usage (.unexpectedArgument name)
  | _ :: name :: _ => .usage (.unexpectedArgument name)

/-- Goes on after some general arguments. -/
def after (general : Arguments) : List String → Except ArgumentStop Invocation
  | [] => .error (.usage .missingCommand)
  | name :: rest => do
    if general.optionsEnded then .error (.usage (.unexpectedArgument name))
    else if name = "build" then
      let arguments ← Arguments.ofList .build rest
      return ⟨general.has .verbose || arguments.has .verbose, Request.ofBuildArguments arguments⟩
    else if name = "get" then
      let arguments ← Arguments.ofList .get rest
      return ⟨general.has .verbose || arguments.has .verbose, ← Request.ofGetArguments arguments⟩
    else if name = "help" then .error (helpOn rest)
    else after (← general.add .general name) rest

/-- Reads a command line. -/
def ofArguments (arguments : List String) : Except ArgumentStop Invocation :=
  after .empty arguments

end Invocation

end DesignTokens
