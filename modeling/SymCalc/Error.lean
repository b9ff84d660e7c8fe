import SymCalc.Expr.Render
import SymCalc.Literal
import SymCalc.ParseError

/-!
# Errors

Every operation of the library fails with an `Error`, which holds the cause; `Error.message` is
its wording. Errors of evaluation stand apart: folding constants, sampling and the console go on
after one of them.

The message of an error of evaluation is written when the error arises. If a number in it is too
long to be written, that is the error instead (`EvaluationError.raised`).
-/

namespace SymCalc

/-- Why an expression has no value or no derivative. -/
inductive EvaluationError where
  /-- The divisor of a quotient is nearly zero. -/
  | divisionByZero (divisor : Float) (quotient : Expr)
  | unknownFunction (name : String)
  | unknownDerivative (name : String)
  | missingBase (logarithm : Expr)
  /-- A logarithm to the base zero or one. -/
  | invalidBase (logarithm : Expr) (base : Int)
deriving DecidableEq

def EvaluationError.message : EvaluationError → String
  | divisionByZero divisor quotient =>
    "Division by " ++ numberText divisor ++ " in " ++ quotient.render ++ "."
  | unknownFunction name => "Can\x27t evaluate unknown function " ++ Text.quoted name ++ "."
  | unknownDerivative name => "Can\x27t differentiate unknown function " ++ Text.quoted name ++ "."
  | missingBase logarithm => "Logarithm " ++ logarithm.render ++ " has no base."
  | invalidBase logarithm base =>
    "Logarithm " ++ logarithm.render ++ " has an invalid base " ++ intText base ++ "."

/-- Whether the message can be written. It shows the node to blame. -/
def EvaluationError.isWritable : EvaluationError → Bool
  | divisionByZero _ node | missingBase node | invalidBase node _ => node.isWritable
  | unknownFunction _ | unknownDerivative _ => true

/-- Why a value cannot be used. -/
inductive ValueError where
  | numeral (e : NumeralError)
  | unknownUnary (symbol : String)
  | unknownBinary (symbol : String)
  | emptyInterval (first last : Float)
  | badCount (count : Literal)
  | unknownLevel (name : String)
  /-- The logarithm of a number below zero. -/
  | logarithmDomain
  /-- A whole number has too many digits to be written. -/
  | numberTooLong

/-- A count of points is refused with a message that shows it. -/
def ValueError.ofCount (count : Literal) : ValueError :=
  if count.isWritable then .badCount count else .numberTooLong

def ValueError.message : ValueError → String
  | numeral e => e.message
  | unknownUnary symbol => "Unknown unary operator " ++ Text.quoted symbol ++ "."
  | unknownBinary symbol => "Unknown binary operator " ++ Text.quoted symbol ++ "."
  | emptyInterval first last =>
    "Sampling interval [" ++ floatText first ++ ", " ++ floatText last ++ "] is empty."
  | badCount count =>
    "Can\x27t sample " ++ count.describe ++ " points, at least 2 are needed."
  | unknownLevel name => "Unknown level: " ++ Text.quoted name
  | logarithmDomain => "math domain error"
  | numberTooLong =>
    "Exceeds the limit (" ++ natText digitLimit
      ++ " digits) for integer string conversion; "
      ++ "use sys.set_int_max_str_digits() to increase the limit"

/-- Why an operation failed. -/
inductive Error where
  | parse (e : ParseError)
  | evaluation (e : EvaluationError)
  | value (e : ValueError)
  /-- A divisor is exactly zero although it passed for nonzero. -/
  | zeroDivisor
  /-- A whole number lies beyond the doubles. -/
  | integerTooLarge
  /-- Nodes never change. -/
  | immutable (node : Expr)
  /-- No function has this number. -/
  | noSuchFunction (id : Int)

def Error.message : Error → String
  | parse e => e.message
  | evaluation e => e.message
  | value e => e.message
  | zeroDivisor => "float division by zero"
  | integerTooLarge => "int too large to convert to float"
  | immutable node => node.kindName ++ " is immutable."
  | noSuchFunction id => intText id

/-- The error that arises where an expression has no value or no derivative. -/
def EvaluationError.raised (e : EvaluationError) : Error :=
  if e.isWritable then .evaluation e else .value .numberTooLong

/-- The text of an expression. -/
def Expr.text (e : Expr) : Except Error String :=
  if e.isWritable then .ok e.render else .error (.value .numberTooLong)

/-- The description of an expression. -/
def Expr.description (e : Expr) : Except Error String :=
  if e.isDescribable then .ok e.describe else .error (.value .numberTooLong)

/-- Numerals are read with errors of their own. -/
def Error.ofNumeral {α : Type} : Except NumeralError α → Except Error α
  | .ok a => .ok a
  | .error e => .error (.value (.numeral e))

end SymCalc
