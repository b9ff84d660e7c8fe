import SymCalc.Expr.Evaluate

/-!
# Derivatives

The derivative of an expression by the rules for sums, products, quotients, powers and calls,
with the chain rule. Nothing is simplified. Powers follow the general rule
`(f^g)' = f^g * (g' * ln f + g * f' / f)`, since both parts may depend on `x`.

Operands are differentiated before their node, so the first call without a derivative, in that
order, is the one to blame.
-/

namespace SymCalc.Expr

/-- The natural logarithm of an expression. -/
def ln (e : Expr) : Expr :=
  call "ln" none e

/-- A whole number as a constant. -/
def ofInt? (n : Int) : Except Error Expr :=
  let x := Float.ofInt n
  if x.isInf then .error .integerTooLarge else .ok (number x)

/-- The derivative of an operation on `l` and `r` with the derivatives `l'` and `r'`. -/
def operationDerivative (op : BinaryOp) (l r l' r' : Expr) : Expr :=
  match op with
  | .add => binary .add l' r'
  | .sub => binary .sub l' r'
  | .mul => binary .add (binary .mul l' r) (binary .mul l r')
  | .div =>
    binary .div (binary .sub (binary .mul l' r) (binary .mul l r'))
      (binary .pow r (number 2.0))
  | .pow =>
    binary .mul (binary .pow l r)
      (binary .add (binary .mul r' (ln l)) (binary .div (binary .mul r l') l))

/-- The derivative of the function that the call `node` names, at its argument. -/
def outerDerivative (node : Expr) (name : String) (base : Option Int) (e : Expr) :
    Except Error Expr :=
  if name = "log" then do
    let b ← ofInt? (← checkedBase node base)
    return binary .div (number 1.0) (binary .mul e (ln b))
  else if name = "sin" then .ok (call "cos" none e)
  else if name = "cos" then .ok (binary .mul (number (-1.0)) (call "sin" none e))
  else if name = "tan" then
    .ok (binary .add (number 1.0) (binary .pow (call "tan" none e) (number 2.0)))
  else if name = "ln" then .ok (binary .div (number 1.0) e)
  else .error (EvaluationError.unknownDerivative name).raised

/-- The derivative of an expression. -/
def derivative : Expr → Except Error Expr
  | const _ => .ok (number 0.0)
  | var => .ok (number 1.0)
  | unary .negate e => do
    let e' ← e.derivative
    return unary .negate e'
  | unary .keep e => e.derivative
  | binary op l r => do
    let l' ← l.derivative
    let r' ← r.derivative
    return operationDerivative op l r l' r'
  | call name base e => do
    let e' ← e.derivative
    let outer ← outerDerivative (call name base e) name base e
    return binary .mul outer e'

end SymCalc.Expr
