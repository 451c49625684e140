import Reckoner.Number.Decimal
import Reckoner.Text.Blank
import Reckoner.Text.Digit

/-!
Reading a number from text. The text may have blanks around it, a sign, a decimal
fraction with digits of any script, single underscores between digits and an exponent;
`inf`, `infinity` and `nan` are numbers in any case. The double nearest to the number
is read, however many digits are written.
-/

set_option autoImplicit false
set_option relaxedAutoImplicit false

namespace Reckoner.Number

open Reckoner.Text

/-- A digit or blank from beyond the first 128 characters as the plain one it stands for. -/
def plainChar (c : Char) : Char :=
  if c.toNat < 128 then c
  else
    match decimalValue? c with
    | some value => Nat.digitChar value
    | none => if isBlank c then ' ' else c

/-- The blanks that may surround a number once all its characters are plain. -/
def isMargin (c : Char) : Bool :=
  c = ' ' || (9 ≤ c.toNat && c.toNat ≤ 13)

/-- The text without margins. -/
def trimMargin (text : List Char) : List Char :=
  ((text.dropWhile isMargin).reverse.dropWhile isMargin).reverse

/-- Removes underscores that stand between two digits; the flag says whether a digit comes
just before the text. An underscore elsewhere is no part of a number. -/
def joinDigits : Bool → List Char → Option (List Char)
  | _, [] => some []
  | false, '_' :: _ => none
  | true, '_' :: rest =>
    match rest with
    | [] => none
    | c :: _ => if c.isDigit then joinDigits false rest else none
  | _, c :: rest => (joinDigits c.isDigit rest).map (c :: ·)

/-- The number that a row of decimal digits writes. -/
def digitsValue (digits : List Char) : Nat :=
  digits.foldl (fun value c ↦ 10 * value + (c.toNat - '0'.toNat)) 0

/-- Splits a sign off the text; the flag says whether it is a minus. -/
def splitSign : List Char → Bool × List Char
  | '-' :: rest => (true, rest)
  | '+' :: rest => (false, rest)
  | text => (false, text)

/-- Reads the exponent after a fraction, which may be missing. -/
def readExponent? : List Char → Option Int
  | [] => some 0
  | mark :: rest =>
    let (negative, digits) := splitSign rest
    if (mark = 'e' ∨ mark = 'E') ∧ digits ≠ [] ∧ digits.all Char.isDigit then
      some (if negative then -(digitsValue digits : Int) else digitsValue digits)
    else none

/-- Reads a decimal fraction without a sign. A digit is needed on one side of the point. -/
def readDecimal? (text : List Char) : Option Decimal :=
  let whole := text.takeWhile Char.isDigit
  let afterWhole := text.dropWhile Char.isDigit
  let afterPoint := if afterWhole.head? = some '.' then afterWhole.tail else afterWhole
  let fraction := if afterWhole.head? = some '.' then afterPoint.takeWhile Char.isDigit else []
  if whole ++ fraction = [] then none
  else
    (readExponent? (afterPoint.drop fraction.length)).map fun exponent ↦
      ⟨digitsValue (whole ++ fraction), exponent - fraction.length⟩

/-- Reads a size: a word for infinity or for no number, or a decimal fraction. -/
def readSize? (negative : Bool) (text : List Char) : Option Float :=
  let word := text.map Char.toLower
  if word = "inf".toList ∨ word = "infinity".toList then some (infinity negative)
  else if word = "nan".toList then some (0.0 / 0.0)
  else (readDecimal? text).map (Decimal.toFloat negative)

/-- Reads a number that takes up the whole text. -/
def read? (text : String) : Option Float :=
  (joinDigits false (trimMargin (text.toList.map plainChar))).bind fun plain ↦
    let (negative, size) := splitSign plain
    readSize? negative size

end Reckoner.Number
