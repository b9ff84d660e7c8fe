import SymCalc.Error

/-!
# Nodes by symbol

Operations are also known by their symbols. Nodes, once built, never change.
-/

namespace SymCalc

/-- The value that a one-character text has for a function on characters. -/
def ofSingle? {α : Type} (f : Char → Option α) (s : String) : Option α :=
  match s.toList with
  | [c] => f c
  | _ => none

namespace Expr

/-- The sign with this symbol before an operand. -/
def ofUnarySymbol (symbol : String) (operand : Expr) : Except Error Expr :=
  match ofSingle? UnaryOp.ofSymbol? symbol with
  | some op => .ok (unary op operand)
  | none => .error (.value (.unknownUnary symbol))

/-- The operation with this symbol on two operands. -/
def ofBinarySymbol (symbol : String) (left right : Expr) : Except Error Expr :=
  match ofSingle? BinaryOp.ofSymbol? symbol with
  | some op => .ok (binary op left right)
  | none => .error (.value (.unknownBinary symbol))

/-- A change to a part of a node is refused, whatever the part. -/
def change (node : Expr) (_part : String) : Except Error Expr :=
  .error (.immutable node)

end Expr

end SymCalc
