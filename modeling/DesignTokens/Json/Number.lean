import DesignTokens.Number.Binary64
import DesignTokens.Text.Word

set_option autoImplicit false

/-! # Numbers in JSON

A number literal without a point or exponent is an integer, if it fits 64 bits and is not
`-0`; every other literal is a double precision number. `JsonNumber.ofLiteral?` reads a
literal, `JsonNumber.text` writes a number. A double precision number is written with the
fewest digits that read back, positionally from `0.00001` up to below `1e16` and with an
exponent elsewhere.
-/

namespace DesignTokens

/-- A number of a JSON document. -/
inductive JsonNumber
  | integer (value : Int)
  | float (negative : Bool) (magnitude : Binary64)
  deriving DecidableEq, Repr

/-- Where double precision numbers are written without an exponent, by the exponent of
their first digit. -/
structure PositionalRange where
  lowest : Int
  highest : Int

namespace JsonNumber

/-- Integers and significands stay below `2 ^ 64`. -/
def wordBound : Nat := 18446744073709551616

/-- Negative integers go down to `-2 ^ 63`. -/
def signedBound : Nat := 9223372036854775808

/-- Appends digits to a significand as long as it fits 64 bits; also the digits left over. -/
def takeDigits (significand : Nat) : List Char → Nat × List Char
  | [] => (significand, [])
  | c :: cs =>
    if 10 * significand + digitValue c < wordBound then
      takeDigits (10 * significand + digitValue c) cs
    else
      (significand, c :: cs)

/-- The power of ten with this exponent, rounded. -/
def powerOfTen (exponent : Nat) : Rat :=
  ((Binary64.nearest? ((10 : Rat) ^ exponent)).map Binary64.toRat).getD 0

/-- The largest exponent of a power of ten that is in range. -/
def maxTenExponent : Nat := 308

/-- A magnitude divided by a power of ten. An exponent out of range is taken in parts, and
every part rounds. -/
def divideByTens (x : Binary64) (exponent : Nat) : Option Binary64 :=
  if exponent ≤ maxTenExponent then
    Binary64.nearest? (x.toRat / powerOfTen exponent)
  else if x.significand = 0 then
    some x
  else
    match Binary64.nearest? (x.toRat / powerOfTen maxTenExponent) with
    | some y => divideByTens y (exponent - maxTenExponent)
    | none => none
termination_by exponent
decreasing_by simp only [maxTenExponent] at *; omega

/-- A magnitude multiplied by a power of ten, if it stays in range. -/
def multiplyByTens (x : Binary64) (exponent : Nat) : Option Binary64 :=
  if exponent ≤ maxTenExponent then
    Binary64.nearest? (x.toRat * powerOfTen exponent)
  else if x.significand = 0 then
    some x
  else
    none

/-- The double precision number `significand * 10 ^ exponent`, if it is in range. The
significand, the power and their product or quotient are rounded one after the other. -/
def scale? (significand : Nat) (exponent : Int) : Option Binary64 := do
  let x ← Binary64.nearest? (significand : Rat)
  match exponent with
  | .ofNat n => multiplyByTens x n
  | .negSucc n => divideByTens x (n + 1)

/-- The parts of a number literal. -/
structure Literal where
  negative : Bool
  whole : List Char
  /-- The digits after the point, if there is one. -/
  places : Option (List Char)
  /-- The exponent, if there is one. -/
  exponent : Option Int

/-- One or more digits at the end of a literal, as a number. -/
def readDigits? (text : List Char) : Option Nat :=
  if text.isEmpty || !text.all isDecimalDigit then none
  else some (text.foldl (fun value c => 10 * value + digitValue c) 0)

/-- The exponent that a literal ends with; `some none` if nothing is left. -/
def readExponent? : List Char → Option (Option Int)
  | [] => some none
  | c :: rest =>
    if c == 'e' || c == 'E' then
      match rest with
      | '-' :: digits => (readDigits? digits).map fun n => some (-(n : Int))
      | '+' :: digits => (readDigits? digits).map fun n => some (n : Int)
      | digits => (readDigits? digits).map fun n => some (n : Int)
    else
      none

/-- Splits a literal: an optional minus sign, digits without a leading zero, and optionally
a point with one or more digits and an exponent. -/
def splitLiteral? (text : List Char) : Option Literal := do
  let (negative, text) := match text with
    | '-' :: rest => (true, rest)
    | text => (false, text)
  let whole := text.takeWhile isDecimalDigit
  if whole.isEmpty || (whole.head? == some '0' && 1 < whole.length) then none
  else
    match text.dropWhile isDecimalDigit with
    | '.' :: rest =>
      let places := rest.takeWhile isDecimalDigit
      if places.isEmpty then none
      else
        let exponent ← readExponent? (rest.dropWhile isDecimalDigit)
        return ⟨negative, whole, some places, exponent⟩
    | rest =>
      let exponent ← readExponent? rest
      return ⟨negative, whole, none, exponent⟩

/-- The number of a literal. A significand of more than 64 bits is cut; digits cut before
the point count for the exponent. -/
def ofParts? (literal : Literal) : Option JsonNumber := do
  let (significand, left) := takeDigits 0 literal.whole
  match literal.places, literal.exponent, left with
  | none, none, [] =>
    if !literal.negative then
      return integer significand
    else if 0 < significand && significand ≤ signedBound then
      return integer (-(significand : Int))
    else
      return float true (← scale? significand 0)
  | places, exponent, left =>
    let places := places.getD []
    let (significand, unread) := takeDigits significand places
    let taken : Int := places.length - unread.length
    return float literal.negative
      (← scale? significand (left.length - taken + exponent.getD 0))

/-- The number that a literal denotes; `none` if it is no literal or out of range. -/
def ofLiteral? (text : List Char) : Option JsonNumber := splitLiteral? text >>= ofParts?

/-- Double precision numbers are written positionally while their first digit counts
between `10 ^ -5` and `10 ^ 15`. -/
def positional : PositionalRange := ⟨-5, 15⟩

/-- A positive number with the given digits, the first of which counts `10 ^ exponent`. -/
def writeDigits (digits : List Char) (exponent : Int) : List Char :=
  if positional.lowest ≤ exponent ∧ exponent ≤ positional.highest then
    match exponent with
    | .ofNat n =>
      let whole := (digits.take (n + 1)).rightpad (n + 1) '0'
      let places := digits.drop (n + 1)
      whole ++ '.' :: (if places.isEmpty then ['0'] else places)
    | .negSucc n => '0' :: '.' :: List.replicate n '0' ++ digits
  else
    let mantissa :=
      match digits with
      | first :: second :: rest => first :: '.' :: second :: rest
      | digits => digits
    mantissa ++ 'e' :: (if exponent < 0 then '-' else '+') :: Nat.toDigits 10 exponent.natAbs

/-- Drops the zeros at the end of a number, raising the power of ten that it counts. -/
def trimZeros (digits : List Char) : List Char :=
  (digits.reverse.dropWhile (· == '0')).reverse

/-- The text of a double precision magnitude. -/
def magnitudeText (x : Binary64) : List Char :=
  if x.significand = 0 then
    ['0', '.', '0']
  else
    let (n, exponent) := x.shortest
    let digits := Nat.toDigits 10 n
    writeDigits (trimZeros digits) (exponent + digits.length - 1)

/-- The text of a number. -/
def text : JsonNumber → String
  | integer value => toString value
  | float negative magnitude =>
    String.ofList ((if negative then ['-'] else []) ++ magnitudeText magnitude)

end JsonNumber

end DesignTokens
