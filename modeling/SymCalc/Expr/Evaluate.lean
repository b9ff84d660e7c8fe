import SymCalc.Double.Elementary

/-!
# Values of expressions

The value of an expression at a double. Operands are evaluated from left to right before their
node, and the first failure ends the evaluation.

A divisor whose magnitude is below the division epsilon counts as zero. With an epsilon above
zero and no base below zero, only the failures of `EvaluationError` arise, as long as their messages
can be written.
-/

namespace SymCalc

/-- The value of a signed operand. -/
def UnaryOp.apply : UnaryOp → Float → Float
  | negate, v => -v
  | keep, v => v

namespace Expr

open Double (PowerLibrary)

/-- The base of the logarithm `node`, which must be present and neither zero nor one. -/
def checkedBase (node : Expr) : Option Int → Except Error Int
  | none => .error (EvaluationError.missingBase node).raised
  | some b =>
    if b = 0 ∨ b = 1 then .error (EvaluationError.invalidBase node b).raised else .ok b

/-- The quotient of two values at the node `node`. -/
def divide (ε : Float) (node : Expr) (a b : Float) : Except Error Float :=
  if b.abs < ε then .error (EvaluationError.divisionByZero b node).raised
  else if b == 0.0 then .error .zeroDivisor
  else .ok (a / b)

/-- The value of an operation at the node `node`. -/
def operate [PowerLibrary] (ε : Float) (node : Expr) (op : BinaryOp) (a b : Float) :
    Except Error Float :=
  match op with
  | .add => .ok (a + b)
  | .sub => .ok (a - b)
  | .mul => .ok (a * b)
  | .div => divide ε node a b
  | .pow => .ok (Double.pow a b)

/-- The function of one argument that a name denotes. -/
def function? (name : String) : Option (Float → Float) :=
  if name = "sin" then some Double.sin
  else if name = "cos" then some Double.cos
  else if name = "tan" then some Double.tan
  else if name = "ln" then some Double.ln
  else none

/-- The value of a call at the node `node`. -/
def apply (node : Expr) (name : String) (base : Option Int) (v : Float) : Except Error Float :=
  if name = "log" then do
    let b ← checkedBase node base
    match Double.lnOfInt b with
    | .ok d => return Double.ln v / d
    | .error e => throw (.value e)
  else
    match function? name with
    | some f => .ok (f v)
    | none => .error (EvaluationError.unknownFunction name).raised

/-- The value of an expression at `x`, with the division epsilon `ε`. -/
def evaluate [PowerLibrary] (ε x : Float) : Expr → Except Error Float
  | const c => .ok c.value
  | var => .ok x
  | unary op e => do
    let v ← e.evaluate ε x
    return op.apply v
  | binary op l r => do
    let a ← l.evaluate ε x
    let b ← r.evaluate ε x
    operate ε (binary op l r) op a b
  | call name base e => do
    let v ← e.evaluate ε x
    apply (call name base e) name base v

end Expr

end SymCalc
