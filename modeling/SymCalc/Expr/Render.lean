import SymCalc.Expr.Basic
import SymCalc.Decimal.Layout
import SymCalc.Text.Quoted

/-!
# Written expressions

* `Expr.render` writes an expression as it can be read back. Parentheses stand only where reading
  would otherwise give another expression, with two exceptions: a right operand of the same
  precedence always has them, and so does a negative constant that is an operand.
* `Expr.describe` writes out the tree.
* `Expr.isWritable` and `Expr.isDescribable` say whether the whole numbers in them can be written.
-/

namespace SymCalc.Expr

/-- How tightly an expression holds together when it is an operand. -/
def precedence : Expr → Nat
  | unary _ _ => 1
  | binary op _ _ => op.precedence
  | const _ | var | call _ _ _ => 4

/-- Whether an expression is a constant below zero, which is written with a sign. -/
def isNegative : Expr → Bool
  | const c => c.value < 0.0
  | _ => false

/-- Whether an operand of a sign has parentheses. -/
def groupedBySign (e : Expr) : Bool :=
  e.precedence ≤ 1 || e.isNegative

/-- Whether a left operand has parentheses. -/
def groupedOnLeft (op : BinaryOp) (e : Expr) : Bool :=
  e.precedence < op.precedence || (e.precedence == op.precedence && !op.isAssociative)
    || e.isNegative

/-- Whether a right operand has parentheses. -/
def groupedOnRight (op : BinaryOp) (e : Expr) : Bool :=
  e.precedence ≤ op.precedence || e.isNegative

/-- A text, perhaps in parentheses. -/
def grouped (text : String) : Bool → String
  | true => "(" ++ text ++ ")"
  | false => text

/-- What stands before the argument of a call. Only a logarithm shows its base. -/
def callHead (name : String) : Option Int → String
  | some base => if name = "log" then "log(" ++ intText base ++ "," else name ++ "("
  | none => name ++ "("

/-- The canonical text of an expression. -/
def render : Expr → String
  | const c => numberText c.value
  | var => "x"
  | unary op e => String.singleton op.symbol ++ grouped e.render e.groupedBySign
  | binary op l r =>
    grouped l.render (groupedOnLeft op l) ++ String.singleton op.symbol
      ++ grouped r.render (groupedOnRight op r)
  | call name base e => callHead name base ++ e.render ++ ")"

/-- The tree of an expression, written as nested constructor calls. -/
def describe : Expr → String
  | const c => "Value(" ++ numberText c.value ++ ")"
  | var => "Variable()"
  | unary op e => (unary op e).kindName ++ "(" ++ e.describe ++ ")"
  | binary op l r => (binary op l r).kindName ++ "(" ++ l.describe ++ ", " ++ r.describe ++ ")"
  | call name base e =>
    "FunctionCall(" ++ Text.quoted name ++ ", " ++ e.describe
      ++ (match base with
        | some b => ", base=" ++ intText b
        | none => "")
      ++ ")"

/-- Whether the bases of the calls whose bases are shown can be written. -/
def basesFit (shown : String → Bool) : Expr → Bool
  | const _ | var => true
  | unary _ e => e.basesFit shown
  | binary _ l r => l.basesFit shown && r.basesFit shown
  | call name base e => (!shown name || base.all withinDigitLimit) && e.basesFit shown

/-- Whether the text can be written. It shows the bases of logarithms. -/
def isWritable : Expr → Bool :=
  basesFit (· == "log")

/-- Whether the description can be written. It shows all bases. -/
def isDescribable : Expr → Bool :=
  basesFit fun _ => true

end SymCalc.Expr
