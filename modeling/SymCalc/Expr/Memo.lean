import SymCalc.Expr.Equality
import SymCalc.Expr.Simplify

/-!
# Remembered simplifications

A `Memo` holds the expressions that were simplified before, with their simplified forms. An
expression equal to one of them is not simplified again.
-/

namespace SymCalc

/-- Expressions and their simplified forms, the latest first. -/
structure Memo where
  entries : List (Expr × Expr)

/-- A computation that remembers simplifications, also those before a failure. -/
abbrev Remembering := ExceptT Error (StateM Memo)

namespace Memo

/-- Nothing is remembered. -/
def empty : Memo :=
  ⟨[]⟩

/-- The simplified form of an expression that is equal to `e`. -/
def find? (m : Memo) (e : Expr) : Option Expr :=
  (m.entries.find? fun entry => entry.1 == e).map (·.2)

/-- Remembers a simplification. -/
def insert (m : Memo) (e simplified : Expr) : Memo :=
  ⟨(e, simplified) :: m.entries⟩

end Memo

/-- Simplifies an expression, or remembers how that ended before. -/
def Expr.simplifyRemembering (ε : Float) (e : Expr) : Remembering Expr := fun memo =>
  match memo.find? e with
  | some simplified => (.ok simplified, memo)
  | none =>
    match e.simplify ε with
    | .ok simplified => (.ok simplified, memo.insert e simplified)
    | .error error => (.error error, memo)

end SymCalc
