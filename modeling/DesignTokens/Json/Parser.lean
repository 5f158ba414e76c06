import DesignTokens.Json.Token

set_option autoImplicit false

/-! # Reading JSON documents

The tokens of a document are read one by one, the open arrays and objects kept in a list of
frames, the innermost first. A member of an object whose key occurs again keeps its place
and gets the later value. At most `maxNesting` arrays and objects may be open at once.
-/

namespace DesignTokens

/-- The largest number of arrays and objects inside each other. -/
def maxNesting : Nat := 127

namespace JsonParser

/-- An open array or object. The items of an array are collected in reverse. -/
inductive Frame
  | array (items : List Json)
  | object (members : List (String × Json))
  /-- An object whose next value belongs to a key. -/
  | member (members : List (String × Json)) (key : String)

/-- What may come next. -/
inductive Expected
  /-- A value; `]` as well, right after `[`. -/
  | value (orClose : Bool)
  /-- The key of a member; the closing brace as well, right after the opening one. -/
  | key (orClose : Bool)
  | colon (key : String)
  /-- A comma or the end of the innermost frame. -/
  | separator
  /-- Nothing: the document is complete. -/
  | nothing (document : Json)

/-- What was read so far. -/
structure State where
  frames : List Frame
  expected : Expected

/-- The state after a complete value. -/
def place? (frames : List Frame) (value : Json) : Option State :=
  match frames with
  | [] => some ⟨[], .nothing value⟩
  | .array items :: frames => some ⟨.array (value :: items) :: frames, .separator⟩
  | .member members key :: frames =>
    some ⟨.object (putMember members key value) :: frames, .separator⟩
  | .object _ :: _ => none

/-- The state after opening an array or object. -/
def open? (frames : List Frame) (frame : Frame) (expected : Expected) : Option State :=
  if frames.length < maxNesting then some ⟨frame :: frames, expected⟩ else none

/-- The state after closing the innermost array or object with its mark. -/
def close? (frames : List Frame) (mark : JsonMark) : Option State :=
  match frames, mark with
  | .array items :: frames, .closeArray => place? frames (.array items.reverse)
  | .object members :: frames, .closeObject => place? frames (.object members)
  | _, _ => none

/-- The state after one more token. -/
def step? (state : State) (token : JsonToken) : Option State :=
  match state.expected, token with
  | .value _, .plain value => place? state.frames value
  | .value _, .text value => place? state.frames (.text value)
  | .value _, .mark .openArray => open? state.frames (.array []) (.value true)
  | .value _, .mark .openObject => open? state.frames (.object []) (.key true)
  | .value true, .mark .closeArray => close? state.frames .closeArray
  | .key _, .text key => some ⟨state.frames, .colon key⟩
  | .key true, .mark .closeObject => close? state.frames .closeObject
  | .colon key, .mark .colon =>
    match state.frames with
    | .object members :: frames => some ⟨.member members key :: frames, .value false⟩
    | _ => none
  | .separator, .mark .comma =>
    match state.frames with
    | .array items :: frames => some ⟨.array items :: frames, .value false⟩
    | .object members :: frames => some ⟨.object members :: frames, .key false⟩
    | _ => none
  | .separator, .mark mark => close? state.frames mark
  | _, _ => none

end JsonParser

/-- Reads a document; `none` if the text is not one. -/
def Json.parse? (text : String) : Option Json := do
  let tokens ← JsonToken.scan? text.toList
  let state ← tokens.foldlM JsonParser.step? ⟨[], .value false⟩
  match state.expected with
  | .nothing document => some document
  | _ => none

end DesignTokens
