import DesignTokens.Json.Basic

set_option autoImplicit false

/-! # JSON tokens

The first step of reading a document: its text is cut into marks, texts and plain values,
one character at a time. `JsonToken.scan?` refuses what is wrong inside a token: an
unknown word, a malformed number, a control character or a bad escape in a text. A code
point above U+FFFF may be escaped as two surrogates; a single surrogate is refused.
-/

namespace DesignTokens

/-- A mark of JSON's punctuation. -/
inductive JsonMark
  | openArray
  | closeArray
  | openObject
  | closeObject
  | colon
  | comma
  deriving DecidableEq, Repr

/-- A token of a JSON document. -/
inductive JsonToken
  | mark (mark : JsonMark)
  | text (value : String)
  | plain (value : Json)

namespace JsonToken

/-- Where the next character of a text stands. -/
inductive TextState
  /-- Between characters. -/
  | plain
  /-- After a backslash. -/
  | escaped
  /-- In the four digits of a code unit, so many of them still to come; `high` is the first
  surrogate of a pair, if the code unit follows one. -/
  | code (missing value : Nat) (high : Option Nat)
  /-- After a first surrogate, where a backslash must come. -/
  | afterHigh (high : Nat)
  /-- After the backslash that follows a first surrogate, where `u` must come. -/
  | beforeLow (high : Nat)

/-- Where the next character of a document stands. Texts, words and numbers are collected
in reverse. -/
inductive ScanState
  | between
  | inText (state : TextState) (collected : List Char)
  | inWord (collected : List Char)
  | inNumber (collected : List Char)

/-- The tokens so far, the latest first, and the state of scanning. -/
structure Scan where
  tokens : List JsonToken
  state : ScanState

/-- Whether a character is a blank of JSON. -/
def isJsonBlank (c : Char) : Bool := c == ' ' || c == '\n' || c == '\t' || c == '\r'

/-- Whether a character can be part of a number. -/
def isNumberChar (c : Char) : Bool :=
  isDecimalDigit c || c == '-' || c == '+' || c == '.' || c == 'e' || c == 'E'

/-- The mark that a character is. -/
def markOf? : Char → Option JsonMark
  | '[' => some .openArray
  | ']' => some .closeArray
  | '\x7b' => some .openObject
  | '\x7d' => some .closeObject
  | ':' => some .colon
  | ',' => some .comma
  | _ => none

/-- The value of a word. -/
def wordOf? (word : String) : Option Json :=
  if word = "null" then some .null
  else if word = "true" then some (.bool true)
  else if word = "false" then some (.bool false)
  else none

/-- The character that an escape of one letter stands for. -/
def escapeOf? : Char → Option Char
  | '"' => some '"'
  | '\\' => some '\\'
  | '/' => some '/'
  | 'b' => some (Char.ofNat 8)
  | 'f' => some (Char.ofNat 12)
  | 'n' => some '\n'
  | 'r' => some '\r'
  | 't' => some '\t'
  | _ => none

/-- The value of a hexadecimal digit. -/
def hexValue? (c : Char) : Option Nat :=
  if isDecimalDigit c then some (digitValue c)
  else if 'a' ≤ c && c ≤ 'f' then some (c.toNat - 'a'.toNat + 10)
  else if 'A' ≤ c && c ≤ 'F' then some (c.toNat - 'A'.toNat + 10)
  else none

/-- What a complete code unit adds to a text: a character, or the wait for the second
surrogate of a pair. -/
def endCode? (unit : Nat) (high : Option Nat) (collected : List Char) : Option ScanState :=
  match high with
  | some high =>
    if 0xDC00 ≤ unit ∧ unit ≤ 0xDFFF then
      let c := Char.ofNat (0x10000 + (high - 0xD800) * 0x400 + (unit - 0xDC00))
      some (.inText .plain (c :: collected))
    else
      none
  | none =>
    if 0xD800 ≤ unit ∧ unit ≤ 0xDBFF then some (.inText (.afterHigh unit) collected)
    else if 0xDC00 ≤ unit ∧ unit ≤ 0xDFFF then none
    else some (.inText .plain (Char.ofNat unit :: collected))

/-- The state after one more character of a text, other than its closing quote. -/
def stepText? (state : TextState) (collected : List Char) (c : Char) : Option ScanState :=
  match state with
  | .plain =>
    if c == '\\' then some (.inText .escaped collected)
    else if c.toNat < 32 then none
    else some (.inText .plain (c :: collected))
  | .escaped =>
    if c == 'u' then some (.inText (.code 4 0 none) collected)
    else (escapeOf? c).map fun c => .inText .plain (c :: collected)
  | .code missing value high => do
    let digit ← hexValue? c
    let value := 16 * value + digit
    if missing ≤ 1 then endCode? value high collected
    else some (.inText (.code (missing - 1) value high) collected)
  | .afterHigh high => if c == '\\' then some (.inText (.beforeLow high) collected) else none
  | .beforeLow high => if c == 'u' then some (.inText (.code 4 0 (some high)) collected) else none

/-- The scan after a character between tokens. -/
def stepBetween? (tokens : List JsonToken) (c : Char) : Option Scan :=
  if isJsonBlank c then some ⟨tokens, .between⟩
  else if c == '"' then some ⟨tokens, .inText .plain []⟩
  else if c == '-' || isDecimalDigit c then some ⟨tokens, .inNumber [c]⟩
  else if isSmall c then some ⟨tokens, .inWord [c]⟩
  else (markOf? c).map fun mark => ⟨.mark mark :: tokens, .between⟩

/-- The token of a word or number that ends here. -/
def endPlain? (state : ScanState) : Option (List JsonToken) :=
  match state with
  | .inWord collected =>
    (wordOf? (String.ofList collected.reverse)).map fun value => [.plain value]
  | .inNumber collected =>
    (JsonNumber.ofLiteral? collected.reverse).map fun value => [.plain (.number value)]
  | .between => some []
  | .inText _ _ => none

/-- The scan after one more character. -/
def step? (scan : Scan) (c : Char) : Option Scan :=
  match scan.state with
  | .inText .plain collected =>
    if c == '"' then some ⟨.text (String.ofList collected.reverse) :: scan.tokens, .between⟩
    else (stepText? .plain collected c).map (⟨scan.tokens, ·⟩)
  | .inText state collected => (stepText? state collected c).map (⟨scan.tokens, ·⟩)
  | .inWord collected =>
    if isSmall c then some ⟨scan.tokens, .inWord (c :: collected)⟩
    else do
      let ended ← endPlain? scan.state
      stepBetween? (ended ++ scan.tokens) c
  | .inNumber collected =>
    if isNumberChar c then some ⟨scan.tokens, .inNumber (c :: collected)⟩
    else do
      let ended ← endPlain? scan.state
      stepBetween? (ended ++ scan.tokens) c
  | .between => stepBetween? scan.tokens c

/-- The tokens of a document. -/
def scan? (text : List Char) : Option (List JsonToken) := do
  let scan ← text.foldlM step? ⟨[], .between⟩
  let ended ← endPlain? scan.state
  return (ended ++ scan.tokens).reverse

end JsonToken

end DesignTokens
