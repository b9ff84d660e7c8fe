import SymCalc.Proofs.Polynomial.Value

/-!
# Horner's rule

**Theorem (`horner_correct`).** With exact rational arithmetic, Horner's rule and the expression of
a polynomial have the same value at every rational number: the sum of the coefficients times the
powers.

The rule takes the coefficients from the highest to the lowest (`horner_eq_foldl`). What it has at
any time is the value of the polynomial with the coefficients so far, so the invariant is stated for
any value to begin with, which counts with the next higher power (`horner_eq_sum`). The expression
adds up the terms instead, from the lowest power to the highest, and leaves out those with the
coefficient zero. They count for nothing (`sum_terms`).
-/

namespace SymCalc

open SymCalc.Expr Finset
open Double (exact exact_of_beq_zero)

/-- Horner's rule as a loop over the coefficients, highest power first. -/
theorem horner_eq_foldl {α : Type} [Add α] [Mul α] (zero x : α) (cs : List α) :
    horner zero x cs = cs.reverse.foldl (fun r c => r * x + c) zero := by
  rw [horner, List.foldl_reverse]

/-- **The value of Horner's rule**, for any value to begin with. -/
theorem horner_eq_sum (v x : ℚ) (cs : List Float) :
    horner v x (cs.map exact) =
      v * x ^ cs.length + ∑ k ∈ range cs.length, exact (cs.getD k 0.0) * x ^ k := by
  induction cs with
  | nil => simp [horner]
  | cons c cs ih =>
    have hstep : horner v x ((c :: cs).map exact) = horner v x (cs.map exact) * x + exact c := rfl
    have hshift : ∑ k ∈ range cs.length, exact ((c :: cs).getD (k + 1) 0.0) * x ^ (k + 1) =
        (∑ k ∈ range cs.length, exact (cs.getD k 0.0) * x ^ k) * x := by
      rw [sum_mul]
      exact sum_congr rfl fun k _ => by rw [List.getD_cons_succ, pow_succ, mul_assoc]
    rw [hstep, ih, List.length_cons, sum_range_succ', hshift, List.getD_cons_zero]
    ring

namespace Polynomial

variable {p : Polynomial} {t : ℕ × Float} {x : ℚ}

theorem rational_termExpr (hk : t.1 ≤ 2 ^ 53) (hc : t.2.isFinite) :
    (termExpr t).rational x = some (exact t.2 * x ^ t.1) := by
  have hpower : (binary .pow var (number (Float.ofNat t.1))).rational x = some (x ^ t.1) :=
    rational_pow rational_var (rational_ofNat hk)
  rw [termExpr, rational_binary (rational_number hc) hpower]
  rfl

/-- **The exact value of a polynomial as an expression**. -/
theorem rational_toExpr (hp : p.IsFinite) (hdegree : p.degree ≤ 2 ^ 53) (x : ℚ) :
    p.toExpr.rational x = some (∑ k ∈ range (p.degree + 1), exact (p.coefficient k) * x ^ k) := by
  have hts : ∀ t ∈ p.terms, (termExpr t).rational x = some (exact t.2 * x ^ t.1) := by
    intro t ht
    obtain ⟨hle, hmem, -⟩ := of_mem_terms ht
    exact rational_termExpr (hle.trans hdegree) (hp t.2 hmem)
  have hsum : (p.terms.map fun t => exact t.2 * x ^ t.1).sum =
      ∑ k ∈ range (p.degree + 1), exact (p.coefficient k) * x ^ k :=
    sum_terms (F := fun k c => exact c * x ^ k)
      (fun k c hc => by rw [exact_of_beq_zero hc, zero_mul]) p
  rw [← hsum, toExpr]
  exact rational_sum hts

/-- **Horner's rule and the equivalent expression compute the same polynomial.** Evaluating a
polynomial is a loop over its coefficients. With exact arithmetic, the loop gives the sum of the
coefficients times the powers at every rational number, and so does the expression of the
polynomial. -/
theorem horner_correct (hp : p.IsFinite) (hdegree : p.degree ≤ 2 ^ 53) :
    (∀ y, p.evaluate y = p.coefficients.reverse.foldl (fun r c => r * y + c) 0.0) ∧
    ∀ x : ℚ,
      (p.coefficients.reverse.map exact).foldl (fun r c => r * x + c) 0 =
        ∑ k ∈ range (p.degree + 1), exact (p.coefficient k) * x ^ k ∧
      p.toExpr.rational x =
        some (∑ k ∈ range (p.degree + 1), exact (p.coefficient k) * x ^ k) := by
  refine ⟨fun y => horner_eq_foldl 0.0 y p.coefficients, fun x => ⟨?_, ?_⟩⟩
  · rw [List.map_reverse, ← horner_eq_foldl, horner_eq_sum, zero_mul, zero_add,
      length_coefficients]
    rfl
  · exact rational_toExpr hp hdegree x

/-- The values of `2x^2 + 1` at a number below zero and at zero. -/
theorem horner_correct_quadratic :
    ((ofCoefficients [1.0, 0.0, 2.0]).coefficients.reverse.map exact).foldl
        (fun r c => r * (-3) + c) 0 = 19 ∧
      (ofCoefficients [1.0, 0.0, 2.0]).toExpr.rational (-3) = some 19 ∧
      (ofCoefficients [1.0, 0.0, 2.0]).toExpr.rational 0 = some 1 := by
  have hfin : (ofCoefficients [1.0, 0.0, 2.0]).IsFinite := List.all_eq_true.mp (by decide)
  have hdegree : (ofCoefficients [1.0, 0.0, 2.0]).degree = 2 := by decide
  have hsum (x : ℚ) : ∑ k ∈ range ((ofCoefficients [1.0, 0.0, 2.0]).degree + 1),
      exact ((ofCoefficients [1.0, 0.0, 2.0]).coefficient k) * x ^ k = 1 + 2 * x ^ 2 := by
    have hzero : (ofCoefficients [1.0, 0.0, 2.0]).coefficient 0 = 1.0 := by decide
    have hone : (ofCoefficients [1.0, 0.0, 2.0]).coefficient 1 = 0.0 := by decide
    have htwo : (ofCoefficients [1.0, 0.0, 2.0]).coefficient 2 = 2.0 := by decide
    rw [hdegree, sum_range_succ, sum_range_succ, sum_range_one, hzero, hone, htwo,
      Double.exact_one, Double.exact_two, exact_of_beq_zero Double.zero_beq_zero]
    ring
  obtain ⟨-, hvalue⟩ := horner_correct hfin (by rw [hdegree]; decide)
  obtain ⟨hloop, hexpr⟩ := hvalue (-3)
  obtain ⟨-, hexpr'⟩ := hvalue 0
  rw [hloop, hexpr, hexpr', hsum, hsum]
  norm_num

end Polynomial

end SymCalc
