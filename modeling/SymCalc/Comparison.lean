import SymCalc.Literal

/-!
# Comparisons with anything

What a value can be compared with: itself, another value of its kind, or a value of another kind.
A value equals itself even where the equality of its kind is not reflexive, and never a value of
another kind.
-/

namespace SymCalc

/-- What a value of type `α` is compared with. -/
inductive Comparand (α : Type) where
  | itself
  | another (a : α)
  | foreign (value : Literal)

/-- Whether a value equals a comparand. -/
def Comparand.equals {α : Type} [BEq α] (a : α) : Comparand α → Bool
  | itself => true
  | another b => a == b
  | foreign _ => false

end SymCalc
