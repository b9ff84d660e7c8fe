import SymCalc.Decimal.Layout
import SymCalc.Double.Basic
import SymCalc.Text.Blank
import SymCalc.Text.Quoted

/-!
# Numerals

The texts of doubles and of whole numbers that come from outside: settings, the value after an
expression, the base of a logarithm, the powers of a polynomial. Blanks may surround a numeral,
its digits may come from any script, and one underscore may stand between two digits. A whole
number may not have more than `digitLimit` digits.

* `readFloat` reads a double, correctly rounded: `1_0.5e-3`, `.5`, `-inf`, `NaN`.
* `readInt` reads a whole number, and `readDigits` one that is known to consist of digits.
* `literal?` reads the plain form `12`, `1.5`, `.5` or `2.` that stands in expressions.
-/

namespace SymCalc

open Text

/-- Why a text is not a numeral. -/
inductive NumeralError where
  | notAFloat (text : String)
  | notAnInteger (text : String)
  | tooManyDigits (count : Nat)
deriving DecidableEq

/-- How much of a quoted text is shown in a complaint about a whole number. -/
def quoteLimit : Nat := 200

def NumeralError.message : NumeralError → String
  | .notAFloat text => "could not convert string to float: " ++ quoted text
  | .notAnInteger text =>
    "invalid literal for int() with base 10: "
      ++ String.ofList ((quotedChars text.toList).take quoteLimit)
  | .tooManyDigits count =>
    "Exceeds the limit (" ++ natText digitLimit
      ++ " digits) for integer string conversion: value has " ++ natText count
      ++ " digits; use sys.set_int_max_str_digits() to increase the limit"

namespace Numeral

/-- Reads digits with at most one point among or around them. -/
def literal? (cs : List Char) : Option Decimal :=
  let whole := cs.takeWhile isAsciiDigit
  match cs.dropWhile isAsciiDigit with
  | [] => if whole.isEmpty then none else some ⟨natOfDigits whole, 0⟩
  | c :: fraction =>
    if c = '.' ∧ fraction.all isAsciiDigit ∧ ¬(whole = [] ∧ fraction = []) then
      some ⟨natOfDigits (whole ++ fraction), -fraction.length⟩
    else none

/-- A digit of another script becomes the ASCII digit of its value, and a blank outside ASCII a
space. -/
def toAscii (c : Char) : Char :=
  if c.toNat < 0x80 then c
  else if isBlank c then ' '
  else match digitValue? c with
    | some d => Nat.digitChar d
    | none => c

/-- The blanks that may surround a numeral after `toAscii`. -/
def isPadding (c : Char) : Bool :=
  within [(0x09, 0x0d), (0x20, 0x20)] c

/-- A numeral in ASCII, without the blanks around it. -/
def stripped (cs : List Char) : List Char :=
  trim isPadding (cs.map toAscii)

/-- Removes underscores, each of which must stand between two digits. The flag tells whether a
digit comes just before. -/
def ungroup : Bool → List Char → Option (List Char)
  | _, [] => some []
  | _, ['_'] => none
  | afterDigit, '_' :: c :: cs =>
    if afterDigit ∧ isAsciiDigit c then (ungroup true cs).map (c :: ·) else none
  | _, c :: cs => (ungroup (isAsciiDigit c) cs).map (c :: ·)

/-- Splits a sign off; the flag is set by a minus sign. -/
def splitSign : List Char → Bool × List Char
  | '-' :: cs => (true, cs)
  | '+' :: cs => (false, cs)
  | cs => (false, cs)

/-- The exponent after the mantissa: nothing, or `e`, a sign and at least one digit. -/
def exponent? : List Char → Option Int
  | [] => some 0
  | _ :: cs =>
    let (negative, ds) := splitSign cs
    if ds ≠ [] ∧ ds.all isAsciiDigit then
      some (if negative then -(natOfDigits ds : Int) else natOfDigits ds)
    else none

/-- Whether a character separates mantissa and exponent. -/
def isExponentMark (c : Char) : Bool :=
  c == 'e' || c == 'E'

/-- A mantissa and perhaps an exponent. -/
def decimal? (cs : List Char) : Option Decimal := do
  let d ← literal? (cs.takeWhile fun c => !isExponentMark c)
  let e ← exponent? (cs.dropWhile fun c => !isExponentMark c)
  return ⟨d.digits, d.exponent + e⟩

/-- A double without its sign. -/
def magnitude? (cs : List Char) : Option Float :=
  let word := String.ofList (cs.map Char.toLower)
  if word = "inf" ∨ word = "infinity" then some Double.infinity
  else if word = "nan" then some Double.notANumber
  else (decimal? cs).map Decimal.toFloat

/-- A double in ASCII without blanks around it. -/
def float? (cs : List Char) : Option Float := do
  let (negative, body) := splitSign (← ungroup false cs)
  let x ← magnitude? body
  return if negative then -x else x

/-- The number that a run of digits of any script denotes. -/
def readDigits (ds : List Char) : Except NumeralError Nat :=
  if digitLimit < ds.length then .error (.tooManyDigits ds.length)
  else .ok (natOfDigits (ds.map toAscii))

/-- The double that a text denotes. -/
def readFloat (text : String) : Except NumeralError Float :=
  match float? (stripped text.toList) with
  | some x => .ok x
  | none => .error (.notAFloat text)

/-- Whether underscores stand singly between other characters. -/
def singlyGrouped : List Char → Bool
  | [] => true
  | '_' :: cs => cs.head?.any (· != '_') && singlyGrouped cs
  | _ :: cs => singlyGrouped cs

/-- The whole number that a text denotes. Too many digits are refused before what follows them
is looked at. -/
def readInt (text : String) : Except NumeralError Int :=
  let (negative, body) := splitSign (stripped text.toList)
  let run := body.takeWhile fun c => isAsciiDigit c || c == '_'
  let digits := run.filter isAsciiDigit
  if run.head?.all (· == '_') || !singlyGrouped run then .error (.notAnInteger text)
  else do
    let n ← readDigits digits
    if run.length < body.length then throw (.notAnInteger text)
    return if negative then -(n : Int) else n

end Numeral

end SymCalc
