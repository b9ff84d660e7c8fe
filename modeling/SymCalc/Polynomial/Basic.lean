import SymCalc.Expr.Basic

/-!
# Polynomials

A polynomial in `x` with double coefficients, lowest power first. The highest coefficient is not
zero unless it is the only one, so that equal polynomials have equally many coefficients.

* `Polynomial.ofCoefficients` drops the zeros at the end of any list of coefficients.
* `Polynomial.evaluate` follows Horner's rule, `Polynomial.toExpr` gives an equivalent expression.
-/

namespace SymCalc

/-- A polynomial: its constant coefficient and the coefficients of `x`, `x²` and so on. -/
structure Polynomial where
  constant : Float
  higher : List Float
  trimmed : ∀ c ∈ higher.getLast?, (c == 0.0) = false

/-- A list without the zeros at its end. -/
def dropZeros : List Float → List Float
  | [] => []
  | c :: cs =>
    match dropZeros cs with
    | [] => if c == 0.0 then [] else [c]
    | d :: ds => c :: d :: ds

theorem getLast?_dropZeros (cs : List Float) :
    ∀ c ∈ (dropZeros cs).getLast?, (c == 0.0) = false := by
  induction cs with
  | nil => simp [dropZeros]
  | cons c cs ih =>
    unfold dropZeros
    split
    · split
      · simp
      · simp_all
    · rename_i d ds h
      rw [h] at ih
      simpa using ih

/-- Horner's rule for coefficients with the lowest power first. -/
def horner {α : Type} [Add α] [Mul α] (zero x : α) (cs : List α) : α :=
  cs.foldr (fun c r => r * x + c) zero

namespace Polynomial

/-- The polynomial with these coefficients, lowest power first; none at all give zero. -/
def ofCoefficients : List Float → Polynomial
  | [] => ⟨0.0, [], by simp⟩
  | c :: cs => ⟨c, dropZeros cs, getLast?_dropZeros cs⟩

/-- The coefficients, lowest power first. -/
def coefficients (p : Polynomial) : List Float :=
  p.constant :: p.higher

/-- The highest power with a coefficient. -/
def degree (p : Polynomial) : Nat :=
  p.higher.length

/-- The value at `x`. -/
def evaluate (p : Polynomial) (x : Float) : Float :=
  horner 0.0 x p.coefficients

/-- The derivative: each coefficient is multiplied by its power and moves down by one. -/
def derivative (p : Polynomial) : Polynomial :=
  ofCoefficients (p.higher.mapIdx fun k c => Float.ofNat (k + 1) * c)

/-- The coefficients other than zero with their powers, lowest power first. -/
def terms (p : Polynomial) : List (Nat × Float) :=
  (p.coefficients.mapIdx fun k c => (k, c)).filter fun t => t.2 != 0.0

/-- One term as an expression. -/
def termExpr (t : Nat × Float) : Expr :=
  .binary .mul (.number t.2) (.binary .pow .var (.number (Float.ofNat t.1)))

/-- The sum of the terms, lowest power first, as an expression. -/
def toExpr (p : Polynomial) : Expr :=
  match p.terms.map termExpr with
  | [] => .number 0.0
  | e :: es => es.foldl (.binary .add) e

/-- Polynomials are equal when their coefficients are equal as doubles. -/
instance : BEq Polynomial :=
  ⟨fun p q => p.coefficients == q.coefficients⟩

end Polynomial

end SymCalc
