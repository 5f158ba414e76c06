set_option autoImplicit false

/-! # Log events

What the library reports while it works, besides its results. An event is a value: its
level, its message and its named fields are read off it by `Event.level`, `Event.message`
and `Event.fields`.
-/

namespace DesignTokens

/-- How much an event matters, from the least to the most. -/
inductive Level
  | trace
  | debug
  | info
  | warn
  deriving DecidableEq, Repr

/-- The position of a level in the order of importance. -/
def Level.rank : Level → Nat
  | .trace => 0
  | .debug => 1
  | .info => 2
  | .warn => 3

/-- The name of a level. -/
def Level.name : Level → String
  | .trace => "TRACE"
  | .debug => "DEBUG"
  | .info => "INFO"
  | .warn => "WARN"

/-- Something worth reporting. -/
inductive Event
  /-- A text that starts like a reference became verbatim text. -/
  | keptAsText (source : String)
  /-- An entry of a group is not an object; `value` is its compact JSON text. -/
  | skippedEntry (path value : String)
  /-- The source of raw values answered for a reference. -/
  | resolvedReference (reference raw : String)
  /-- A token tree was loaded, with this many expressions and distinct references. -/
  | loadedTree (expressions references : Nat)
  /-- A formatter is about to run for the matches of a key. -/
  | dispatching (key tokenType : String) (matching : Nat)
  /-- A style sheet was generated, with this many variables and rules. -/
  | generatedCss (properties classes : Nat)
  /-- An expression is about to be evaluated below this many references. -/
  | evaluating (source : String) (depth : Nat)
  /-- A platform is about to run. -/
  | runningPlatform (platform : String)
  /-- A generated file was written. -/
  | wroteOutput (path : String) (bytes : Nat)
  /-- The tokens are read from standard input. -/
  | readingStdin
  /-- The tokens are read from a file. -/
  | readingFile (path : String)
  deriving DecidableEq, Repr

namespace Event

/-- The level an event is reported at. -/
def level : Event → Level
  | keptAsText _ => .warn
  | evaluating _ _ => .trace
  | runningPlatform _ => .info
  | wroteOutput _ _ => .info
  | readingStdin => .info
  | readingFile _ => .info
  | _ => .debug

/-- The fixed text of an event. -/
def message : Event → String
  | keptAsText _ => "value looks like a reference but is kept as text"
  | skippedEntry _ _ => "skipping non-token entry"
  | resolvedReference _ _ => "resolved reference"
  | loadedTree _ _ => "loaded token tree"
  | dispatching _ _ _ => "dispatching"
  | generatedCss _ _ => "generated css"
  | evaluating _ _ => "evaluating"
  | runningPlatform _ => "running platform"
  | wroteOutput _ _ => "wrote platform output"
  | readingStdin => "reading tokens from stdin"
  | readingFile _ => "tokens input file"

/-- The named fields of an event, as texts. -/
def fields : Event → List (String × String)
  | keptAsText source => [("source", source)]
  | skippedEntry path value => [("path", path), ("value", value)]
  | resolvedReference reference raw => [("reference", reference), ("raw", raw)]
  | loadedTree expressions references =>
    [("expressions", toString expressions), ("references", toString references)]
  | dispatching key tokenType matching =>
    [("prefix", key), ("token_type", tokenType), ("matches", toString matching)]
  | generatedCss properties classes =>
    [("variables", toString properties), ("classes", toString classes)]
  | evaluating source depth => [("source", source), ("depth", toString depth)]
  | runningPlatform platform => [("platform", platform)]
  | wroteOutput path bytes => [("path", path), ("bytes", toString bytes)]
  | readingStdin => []
  | readingFile path => [("path", path)]

/-- Whether an event is reported when events of `least` and above are. -/
def isAtLeast (least : Level) (event : Event) : Bool := least.rank ≤ event.level.rank

end Event

end DesignTokens
