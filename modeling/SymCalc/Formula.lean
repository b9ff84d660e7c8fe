import SymCalc.Expr.Derivative
import SymCalc.Expr.Memo
import SymCalc.Polynomial.Text

/-!
# Formulas

What a function of `x` is given by: an expression or a polynomial. Either can be evaluated,
differentiated, simplified and written.
-/

namespace SymCalc

/-- What a function of `x` is given by. -/
inductive Formula where
  | expr (e : Expr)
  | polynomial (p : Polynomial)

namespace Formula

/-- The value at `x`, with the division epsilon `ε`. -/
def evaluate (ε x : Float) : Formula → Except Error Float
  | expr e => e.evaluate ε x
  | polynomial p => .ok (p.evaluate x)

/-- The derivative, not simplified. -/
def derivative : Formula → Except Error Formula
  | expr e => e.derivative.map expr
  | polynomial p => .ok (polynomial p.derivative)

/-- The simplified form; a polynomial has no simpler one. -/
def simplified (ε : Float) : Formula → Remembering Formula
  | expr e => do return expr (← e.simplifyRemembering ε)
  | polynomial p => return polynomial p

/-- The canonical text. -/
def render : Formula → String
  | expr e => e.render
  | polynomial p => p.render

/-- The canonical text, if the numbers in it can be written. The powers of a polynomial always
can. -/
def text : Formula → Except Error String
  | expr e => e.text
  | polynomial p => .ok p.render

end Formula

end SymCalc
