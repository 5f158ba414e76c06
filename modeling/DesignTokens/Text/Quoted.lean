import DesignTokens.Text.VisibleRanges
import DesignTokens.Text.Word

set_option autoImplicit false

/-! # Quoted text

Text in double quotes for descriptions. Quotes and backslashes are escaped, and so is every
character that would not show: a mark on the character before it, a filler, a space other
than U+0020, a control or format character, a private or unassigned code point.
-/

namespace DesignTokens

/-- Whether a character shows when it stands alone. -/
def isVisible (c : Char) : Bool :=
  if c.toNat < 128 then
    ' ' ≤ c && c ≤ '~'
  else
    inRanges visibleRanges c

/-- The escape of a character by its code point. -/
def codeEscape (c : Char) : List Char :=
  '\\' :: 'u' :: '\x7b' :: Nat.toDigits 16 c.toNat ++ ['\x7d']

/-- A character as it is written between quotes. -/
def quotedChar (c : Char) : List Char :=
  if c = '"' then ['\\', '"']
  else if c = '\\' then ['\\', '\\']
  else if c = '\n' then ['\\', 'n']
  else if c = '\r' then ['\\', 'r']
  else if c = '\t' then ['\\', 't']
  else if c.toNat = 0 then ['\\', '0']
  else if isVisible c then [c]
  else codeEscape c

/-- The text in quotes. -/
def quoted (text : String) : String :=
  String.ofList ('"' :: text.toList.flatMap quotedChar ++ ['"'])

end DesignTokens
