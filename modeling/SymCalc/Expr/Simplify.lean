import SymCalc.Expr.Evaluate

/-!
# Simplification

An expression is simplified from its leaves to its root. A node over constants becomes the
constant that is its value, if it has a finite one. Otherwise the laws of zero and one apply:
`0+e`, `e+0`, `e-0`, `1*e`, `e*1`, `e/1` and `e^1` become `e`, `0*e` and `e*0` become `0`, `e^0`
becomes `1`, `-(-e)` becomes `e` and `+e` becomes `e`.
-/

namespace SymCalc.Expr

/-- Applies the laws of zero and one, and those of signs, at the root. -/
def reduce : Expr → Expr
  | binary .add l r => if l.isNumber 0.0 then r else if r.isNumber 0.0 then l else binary .add l r
  | binary .sub l r => if r.isNumber 0.0 then l else binary .sub l r
  | binary .mul l r =>
    if l.isNumber 0.0 || r.isNumber 0.0 then number 0.0
    else if l.isNumber 1.0 then r
    else if r.isNumber 1.0 then l
    else binary .mul l r
  | binary .div l r => if r.isNumber 1.0 then l else binary .div l r
  | binary .pow l r =>
    if r.isNumber 0.0 then number 1.0
    else if r.isNumber 1.0 then l
    else binary .pow l r
  | unary .negate (unary .negate e) => e
  | unary .keep e => e
  | e => e

/-- The constant that is the value of a node over constants. There is none if the evaluation
fails with an `EvaluationError` or the value is not finite; other failures are passed on. -/
def fold? (ε : Float) (e : Expr) : Except Error (Option Expr) :=
  match e.evaluate ε 0.0 with
  | .ok v => .ok (if v.isFinite then some (number v) else none)
  | .error (.evaluation _) => .ok none
  | .error other => .error other

/-- Simplifies a node over simplified operands. -/
def simplifyNode (ε : Float) (e : Expr) : Except Error Expr := do
  if e.children.all isConst then
    match ← fold? ε e with
    | some c => return c
    | none => return e.reduce
  else return e.reduce

/-- The simplified form of an expression, with the division epsilon `ε`. -/
def simplify (ε : Float) : Expr → Except Error Expr
  | const c => .ok (const c)
  | var => .ok var
  | unary op e => do
    let e ← e.simplify ε
    simplifyNode ε (unary op e)
  | binary op l r => do
    let l ← l.simplify ε
    let r ← r.simplify ε
    simplifyNode ε (binary op l r)
  | call name base e => do
    let e ← e.simplify ε
    simplifyNode ε (call name base e)

end SymCalc.Expr
