import DesignTokens.Text.DigitRanges
import DesignTokens.Text.WordRanges

set_option autoImplicit false

/-! # Character classes

The classes of characters the token language is made of: digits, word characters, the
characters of a reference path, the characters of a bare term, unit letters and blanks. The
digits that a number is cut at, word characters and blanks follow the Unicode properties; the
other classes add or name ASCII characters. `isTermChar_of_isPathChar` orders the two classes a
term is read with.
-/

namespace DesignTokens

/-- An ASCII capital. -/
def isCapital (c : Char) : Bool := 'A' ≤ c && c ≤ 'Z'

/-- An ASCII small letter. -/
def isSmall (c : Char) : Bool := 'a' ≤ c && c ≤ 'z'

/-- An ASCII decimal digit. -/
def isDecimalDigit (c : Char) : Bool := '0' ≤ c && c ≤ '9'

/-- The number a decimal digit stands for. -/
def digitValue (c : Char) : Nat := c.toNat - '0'.toNat

/-- Whether a character lies in one of the ranges of code points, first and last included. -/
def inRanges (ranges : List (Nat × Nat)) (c : Char) : Bool :=
  ranges.any fun range => range.1 ≤ c.toNat && c.toNat ≤ range.2

/-- A decimal digit of any script: an ASCII digit, or a character with the Unicode property
`Decimal_Number` above them. -/
def isAnyDigit (c : Char) : Bool :=
  if c.toNat < 128 then isDecimalDigit c else inRanges digitRanges c

/-- A character of a word: a letter, a digit or the underscore among the ASCII characters,
and the Unicode word class above them. -/
def isWordChar (c : Char) : Bool :=
  if c.toNat < 128 then
    isCapital c || isSmall c || isDecimalDigit c || c == '_'
  else
    inRanges wordRanges c

/-- A character of a reference path: a word character, `.` or `#`. -/
def isPathChar (c : Char) : Bool := isWordChar c || c == '.' || c == '#'

/-- A character of a bare term: a path character or `%`. -/
def isTermChar (c : Char) : Bool := isPathChar c || c == '%'

/-- A character of a unit: an ASCII letter or `%`. -/
def isUnitChar (c : Char) : Bool := isCapital c || isSmall c || c == '%'

/-- A character with the Unicode property `White_Space`. -/
def isBlank (c : Char) : Bool :=
  let n := c.toNat
  (0x09 ≤ n && n ≤ 0x0D) || n == 0x20 || n == 0x85 || n == 0xA0 || n == 0x1680 ||
    (0x2000 ≤ n && n ≤ 0x200A) || n == 0x2028 || n == 0x2029 || n == 0x202F ||
    n == 0x205F || n == 0x3000

/-- The text without its blanks. -/
def stripBlanks (text : String) : String :=
  String.ofList (text.toList.filter fun c => !isBlank c)

theorem isTermChar_of_isPathChar {c : Char} (h : isPathChar c = true) :
    isTermChar c = true := by
  simp [isTermChar, h]

theorem isPathChar_of_isWordChar {c : Char} (h : isWordChar c = true) :
    isPathChar c = true := by
  simp [isPathChar, h]

@[simp] theorem toList_stripBlanks (text : String) :
    (stripBlanks text).toList = text.toList.filter fun c => !isBlank c := by
  simp [stripBlanks]

end DesignTokens
