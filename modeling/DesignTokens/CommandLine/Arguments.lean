import DesignTokens.CommandLine.Options

set_option autoImplicit false

/-! # Reading arguments

Arguments are read from left to right. One that starts with two dashes is a long option,
with a value after `=` or in the arguments that follow; one that starts with a single dash
is a row of short options, the last of which may have its value attached. An option with
several values takes every argument up to the next option. After `--` no argument is an
option or a value of one.
-/

namespace DesignTokens

/-- Why arguments make no sense. -/
inductive UsageError
  | unknownOption (argument : String)
  | missingValue (option : CommandOption)
  | unexpectedValue (option : CommandOption)
  | repeatedOption (option : CommandOption)
  | emptyValue (option : CommandOption)
  | emptyPath
  | unexpectedArgument (argument : String)
  | missingKey
  | missingCommand
  deriving DecidableEq, Repr

/-- The explanation of a usage error. -/
def UsageError.message : UsageError → String
  | unknownOption argument => "unexpected argument '" ++ argument ++ "' found"
  | missingValue option => "a value is required for '--" ++ option.longName ++ "'"
  | unexpectedValue option => "no value is expected for '--" ++ option.longName ++ "'"
  | repeatedOption option => "'--" ++ option.longName ++ "' cannot be used multiple times"
  | emptyValue option => "the value of '--" ++ option.longName ++ "' is empty"
  | emptyPath => "the path of the input file is empty"
  | unexpectedArgument argument => "unexpected argument '" ++ argument ++ "' found"
  | missingKey => "a key is required"
  | missingCommand => "a command is required"

/-- Why reading arguments ends before the last of them. -/
inductive ArgumentStop
  | usage (error : UsageError)
  | help
  | version
  deriving DecidableEq, Repr

/-- What the option read last still takes. -/
inductive PendingOption
  | nothing
  /-- The option has no value yet. -/
  | first (option : CommandOption)
  /-- The option has values, and takes more. -/
  | further (option : CommandOption)
  deriving DecidableEq, Repr

/-- The arguments read so far. -/
structure Arguments where
  /-- The options with their values, in order; a flag has the empty text. -/
  settings : List (CommandOption × String)
  /-- The arguments that are not options. -/
  positionals : List String
  pending : PendingOption
  /-- Whether `--` was read. -/
  optionsEnded : Bool
  deriving DecidableEq, Repr

namespace Arguments

/-- No arguments. -/
def empty : Arguments := ⟨[], [], .nothing, false⟩

/-- The values of an option, in order. -/
def valuesOf (arguments : Arguments) (option : CommandOption) : List String :=
  (arguments.settings.filter fun setting => setting.1 == option).map Prod.snd

/-- The value of an option. -/
def value? (arguments : Arguments) (option : CommandOption) : Option String :=
  arguments.settings.lookup option

/-- Whether an option was given. -/
def has (arguments : Arguments) (option : CommandOption) : Bool :=
  (arguments.value? option).isSome

/-- Refuses to go on before the option read last has a value. -/
def settle (arguments : Arguments) : Except ArgumentStop Arguments :=
  match arguments.pending with
  | .first option => .error (.usage (.missingValue option))
  | _ => .ok { arguments with pending := .nothing }

/-- Gives an option a value, or sets a flag. Only options with several values may be given
more than once. -/
def set (arguments : Arguments) (option : CommandOption) (value : String) :
    Except ArgumentStop Arguments :=
  if option = .help then .error .help
  else if option = .version then .error .version
  else if option.arity ≠ .several && arguments.has option then
    .error (.usage (.repeatedOption option))
  else if option = .outputDirectory && value.isEmpty then
    .error (.usage (.emptyValue option))
  else
    .ok { arguments with settings := arguments.settings ++ [(option, value)] }

/-- Adds an argument that is not an option. -/
def addPositional (rules : ArgumentRules) (arguments : Arguments) (argument : String) :
    Except ArgumentStop Arguments := do
  let arguments ← arguments.settle
  let count := arguments.positionals.length + 1
  if rules.maxPositionals < count then
    .error (.usage (.unexpectedArgument argument))
  else if count = rules.maxPositionals && argument.isEmpty then
    .error (.usage .emptyPath)
  else
    .ok { arguments with positionals := arguments.positionals ++ [argument] }

/-- Reads a long option, given without its dashes. -/
def addLong (rules : ArgumentRules) (arguments : Arguments) (text : List Char) :
    Except ArgumentStop Arguments := do
  let name := String.ofList (text.takeWhile fun c => c != '=')
  match rules.long? name with
  | none => .error (.usage (.unknownOption ("--" ++ name)))
  | some option =>
    match text.dropWhile fun c => c != '=' with
    | _ :: value =>
      if option.arity = .flag then .error (.usage (.unexpectedValue option))
      else (← arguments.settle).set option (String.ofList value)
    | [] =>
      if option.arity = .flag then (← arguments.settle).set option ""
      else return { (← arguments.settle) with pending := .first option }

/-- Reads a row of short options, given without its dash. -/
def addShort (rules : ArgumentRules) (arguments : Arguments) :
    List Char → Except ArgumentStop Arguments
  | [] => .ok arguments
  | letter :: rest => do
    match rules.short? letter with
    | none => .error (.usage (.unknownOption (String.ofList ['-', letter])))
    | some option =>
      let arguments ← arguments.settle
      if option.arity = .flag then addShort rules (← arguments.set option "") rest
      else
        match rest with
        | [] => return { arguments with pending := .first option }
        | '=' :: value => arguments.set option (String.ofList value)
        | value => arguments.set option (String.ofList value)

/-- Reads a text that is no option: a value of the option read last, or an argument of its
own. -/
def addPlain (rules : ArgumentRules) (arguments : Arguments) (argument : String) :
    Except ArgumentStop Arguments :=
  match arguments.pending with
  | .nothing => arguments.addPositional rules argument
  | .further option => arguments.set option argument
  | .first option => do
    let arguments ← arguments.set option argument
    let pending := if option.arity = .several then .further option else .nothing
    return { arguments with pending }

/-- Reads one argument. -/
def add (rules : ArgumentRules) (arguments : Arguments) (argument : String) :
    Except ArgumentStop Arguments :=
  if arguments.optionsEnded then arguments.addPositional rules argument
  else
    match argument.toList with
    | ['-', '-'] => .ok { arguments with optionsEnded := true }
    | '-' :: '-' :: text => arguments.addLong rules text
    | '-' :: letter :: text => arguments.addShort rules (letter :: text)
    | _ => arguments.addPlain rules argument

/-- Reads all arguments of a command. -/
def ofList (rules : ArgumentRules) (arguments : List String) : Except ArgumentStop Arguments := do
  (← arguments.foldlM (add rules) empty).settle

end Arguments

end DesignTokens
