import SymCalc.Decimal.Numeral

/-!
# Errors of reading

Why a text is no expression or no polynomial, and where: the position counts characters of the
text without its blanks, and the character is the one at that position, if there is one to blame.
-/

namespace SymCalc

/-- What is wrong with a text. -/
inductive ParseError.Cause where
  /-- An operand is missing at the end. -/
  | endOfInput
  /-- Something follows a whole expression. -/
  | trailingInput
  | unclosedGroup
  | unclosedCall (name : String)
  | unclosedLogarithm
  /-- A logarithm does not begin with the digits of its base. -/
  | missingLogarithmBase
  /-- No comma follows the base of a logarithm. -/
  | missingLogarithmComma
  | unexpectedCharacter (c : Char)
  | malformedNumber (literal : String)
  | nestedTooDeep (limit : Int)
  | emptyPolynomial
  /-- No term of a polynomial begins with this character. -/
  | unexpectedInPolynomial (c : Char)
  /-- Two terms of a polynomial have no sign between them. -/
  | missingTermSign
deriving DecidableEq

/-- A failure to read a text. -/
structure ParseError where
  cause : ParseError.Cause
  position : Nat
  character : Option Char
deriving DecidableEq

open Text in
def ParseError.Cause.message : Cause → String
  | endOfInput => "Unexpected end of input"
  | trailingInput => "Unexpected trailing input"
  | unclosedGroup => "Missing closing parenthesis"
  | unclosedCall name => "Missing closing parenthesis in " ++ name ++ " call"
  | unclosedLogarithm => "Missing closing parenthesis in log call"
  | missingLogarithmBase => "Expected the logarithm base"
  | missingLogarithmComma => "Expected \x27,\x27 after the logarithm base"
  | unexpectedCharacter c => "Unexpected character " ++ quoted (String.singleton c)
  | malformedNumber literal => "Malformed number " ++ quoted literal
  | nestedTooDeep limit => "Parentheses are nested deeper than " ++ intText limit ++ " levels"
  | emptyPolynomial => "Empty polynomial"
  | unexpectedInPolynomial c =>
    "Unexpected character " ++ quoted (String.singleton c) ++ " in polynomial"
  | missingTermSign => "Expected \x27+\x27 or \x27-\x27 between terms"

def ParseError.message (e : ParseError) : String :=
  e.cause.message ++ " at position " ++ natText e.position ++ "."

/-- The failure with this cause where `rest` begins in `text`. Too deep a nesting blames no
character. -/
def ParseError.atRest (cause : Cause) (text rest : List Char) : ParseError where
  cause := cause
  position := text.length - rest.length
  character :=
    match cause with
    | .nestedTooDeep _ => none
    | _ => rest.head?

end SymCalc
