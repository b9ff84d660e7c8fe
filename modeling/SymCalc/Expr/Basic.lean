/-!
# Expressions

Expressions in one variable `x`: constants, `x` itself, two signs, five operations and named
calls. A call of `log` has a whole base; any call can carry one.

* `Constant` is any double but the negative zero, so that equal constants are the same constant.
* `Expr.children` and `Expr.withChildren` take a node apart and put it together again
  (`withChildren_children`).
-/

namespace SymCalc

/-- A constant of an expression: any double but the negative zero. -/
structure Constant where
  value : Float
  ne_negZero : value ≠ -0.0
deriving DecidableEq

/-- The constant equal to a double; both zeros give the positive one. -/
def Constant.ofFloat (x : Float) : Constant :=
  if h : x == 0.0 then ⟨0.0, by decide⟩
  else ⟨x, fun hx => h (by rw [hx]; decide)⟩

/-- A sign before an operand. -/
inductive UnaryOp where
  | negate
  | keep
deriving DecidableEq

/-- An operation between two operands. -/
inductive BinaryOp where
  | add
  | sub
  | mul
  | div
  | pow
deriving DecidableEq

namespace UnaryOp

def symbol : UnaryOp → Char
  | negate => '-'
  | keep => '+'

/-- The sign that a character denotes. -/
def ofSymbol? : Char → Option UnaryOp
  | '-' => some negate
  | '+' => some keep
  | _ => none

@[simp] theorem ofSymbol?_symbol (op : UnaryOp) : ofSymbol? op.symbol = some op := by
  cases op <;> rfl

end UnaryOp

namespace BinaryOp

def symbol : BinaryOp → Char
  | add => '+'
  | sub => '-'
  | mul => '*'
  | div => '/'
  | pow => '^'

/-- The operation that a character denotes. -/
def ofSymbol? : Char → Option BinaryOp
  | '+' => some add
  | '-' => some sub
  | '*' => some mul
  | '/' => some div
  | '^' => some pow
  | _ => none

@[simp] theorem ofSymbol?_symbol (op : BinaryOp) : ofSymbol? op.symbol = some op := by
  cases op <;> rfl

/-- How tightly the operation binds its operands. -/
def precedence : BinaryOp → Nat
  | add | sub => 1
  | mul | div => 2
  | pow => 3

/-- Whether a left operand of the same precedence is written without parentheses. -/
def isAssociative : BinaryOp → Bool
  | add | mul => true
  | sub | div | pow => false

end BinaryOp

/-- An expression in the variable `x`. -/
inductive Expr where
  | const (c : Constant)
  | var
  | unary (op : UnaryOp) (operand : Expr)
  | binary (op : BinaryOp) (left right : Expr)
  | call (name : String) (base : Option Int) (argument : Expr)
deriving DecidableEq

namespace Expr

/-- The constant expression equal to a double. -/
def number (x : Float) : Expr :=
  .const (.ofFloat x)

/-- The operands of a node, from left to right. -/
def children : Expr → List Expr
  | const _ | var => []
  | unary _ e => [e]
  | binary _ l r => [l, r]
  | call _ _ e => [e]

/-- The same node over other operands. A node without operands stays as it is, and so does a
node that is offered the wrong number of them. -/
def withChildren : Expr → List Expr → Expr
  | unary op _, [e] => unary op e
  | binary op _ _, [l, r] => binary op l r
  | call name base _, [e] => call name base e
  | e, _ => e

@[simp] theorem withChildren_children (e : Expr) : e.withChildren e.children = e := by
  cases e <;> rfl

/-- How many nodes lie on the longest path from the root to a leaf. -/
def depth : Expr → Nat
  | const _ | var => 1
  | unary _ e => 1 + e.depth
  | binary _ l r => 1 + max l.depth r.depth
  | call _ _ e => 1 + e.depth

/-- What a node is called in descriptions. -/
def kindName : Expr → String
  | const _ => "Value"
  | var => "Variable"
  | unary .negate _ => "Negation"
  | unary .keep _ => "Identity"
  | binary .add _ _ => "Sum"
  | binary .sub _ _ => "Difference"
  | binary .mul _ _ => "Product"
  | binary .div _ _ => "Quotient"
  | binary .pow _ _ => "Power"
  | call _ _ _ => "FunctionCall"

/-- Whether an expression is a constant. -/
def isConst : Expr → Bool
  | const _ => true
  | _ => false

/-- Whether an expression is the constant equal to `x`. -/
def isNumber (x : Float) : Expr → Bool
  | const c => c.value == x
  | _ => false

end Expr

end SymCalc
