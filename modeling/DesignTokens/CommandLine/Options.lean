set_option autoImplicit false

/-! # Options of the command line

The options by their long and short names, and which of them belong to which command.
-/

namespace DesignTokens

/-- An option of the command line. -/
inductive CommandOption
  | verbose
  | help
  | version
  | platform
  | variableScope
  | classScope
  | outputDirectory
  deriving DecidableEq, Repr

/-- How many values an option takes. -/
inductive OptionArity
  /-- None. -/
  | flag
  /-- Exactly one. -/
  | single
  /-- One or more. -/
  | several
  deriving DecidableEq, Repr

namespace CommandOption

/-- The name after two dashes. -/
def longName : CommandOption → String
  | verbose => "verbose"
  | help => "help"
  | version => "version"
  | platform => "platform"
  | variableScope => "token-prefix"
  | classScope => "token-set-prefix"
  | outputDirectory => "output-dir"

/-- The letter after one dash. -/
def shortName? : CommandOption → Option Char
  | verbose => some 'v'
  | help => some 'h'
  | version => some 'V'
  | platform => some 'p'
  | outputDirectory => some 'o'
  | variableScope => none
  | classScope => none

/-- How many values an option takes. -/
def arity : CommandOption → OptionArity
  | verbose => .flag
  | help => .flag
  | version => .flag
  | platform => .several
  | variableScope => .single
  | classScope => .single
  | outputDirectory => .single

end CommandOption

/-- Which arguments may be given in some place. -/
structure ArgumentRules where
  options : List CommandOption
  /-- How many arguments that are not options there may be; the last of them is the path of
  a file. -/
  maxPositionals : Nat
  deriving DecidableEq, Repr

namespace ArgumentRules

/-- The arguments before the name of a command. -/
def general : ArgumentRules := ⟨[.verbose, .help, .version], 0⟩

/-- The arguments of `build`: the input file. -/
def build : ArgumentRules :=
  ⟨[.verbose, .help, .platform, .variableScope, .classScope, .outputDirectory], 1⟩

/-- The arguments of `get`: the key and the input file. -/
def get : ArgumentRules := ⟨[.verbose, .help], 2⟩

/-- The option with a long name. -/
def long? (rules : ArgumentRules) (name : String) : Option CommandOption :=
  rules.options.find? fun o => o.longName == name

/-- The option with a short name. -/
def short? (rules : ArgumentRules) (letter : Char) : Option CommandOption :=
  rules.options.find? fun o => o.shortName? == some letter

end ArgumentRules

end DesignTokens
