import SymCalc.Expr.Basic

/-!
# Equality of expressions

Two expressions are equal when they have the same shape, the same operations, names and bases,
and constants that are equal as doubles. The comparison works through a list of pairs that are
still to be compared, so it needs no stack as deep as the expressions.

A constant that is not a number differs from itself, so this equality is not reflexive.
-/

namespace SymCalc.Expr

/-- The number of nodes. -/
def size : Expr → Nat
  | const _ | var => 1
  | unary _ e => e.size + 1
  | binary _ l r => l.size + r.size + 1
  | call _ _ e => e.size + 1

/-- Whether two nodes agree apart from their operands; constants are compared as doubles. -/
def agrees : Expr → Expr → Bool
  | const c, const d => c.value == d.value
  | var, var => true
  | unary o _, unary p _ => o = p
  | binary o _ _, binary p _ _ => o = p
  | call n b _, call m c _ => n = m ∧ b = c
  | _, _ => false

/-- The number of nodes in the first parts of a list of pairs. -/
def leftSize : List (Expr × Expr) → Nat
  | [] => 0
  | (a, _) :: pending => a.size + leftSize pending

theorem leftSize_append (ps qs : List (Expr × Expr)) :
    leftSize (ps ++ qs) = leftSize ps + leftSize qs := by
  induction ps with
  | nil => simp [leftSize]
  | cons p ps ih => simp [leftSize, ih, Nat.add_assoc]

theorem leftSize_zip_children (a b : Expr) : leftSize (a.children.zip b.children) < a.size := by
  cases a <;> cases b <;>
    simp only [children, size, List.zip_cons_cons, List.zip_nil_left, List.zip_nil_right, leftSize]
      <;> omega

/-- Whether all pairs in a list are equal. -/
def allEqual : List (Expr × Expr) → Bool
  | [] => true
  | (a, b) :: pending =>
    a.agrees b && allEqual (a.children.zip b.children ++ pending)
termination_by pending => leftSize pending
decreasing_by
  have := leftSize_zip_children a b
  simp only [leftSize_append, leftSize]
  omega

instance : BEq Expr :=
  ⟨fun a b => allEqual [(a, b)]⟩

end SymCalc.Expr
