import SymCalc.Proofs.Expr.SimplifiedNodes
import SymCalc.Proofs.Polynomial.Value

/-!
# Derivatives of polynomials as expressions

**Theorem (`slope_correct`).** Take a polynomial as an expression, differentiate that and simplify
the result. No logarithm is left of the general rule for powers, and at any rational number but
zero the exact value is that of the derivative: the sum of `k * c * x^(k-1)` over the coefficients
`c` of the powers `k`. The derivative of the polynomial has the same products as coefficients, as
far as doubles have them.

The simplified derivative is known exactly (`simplify_derivative_toExpr`). The rule gives
`x^k * (0*ln(x) + k*1/x)` for `x^k`, which becomes `0/x` for the power zero, `x*(1/x)` for the power
one and `x^k*(k/x)` for the others (`powerSlope`). A coefficient other than one stays before it
(`termSlope`), and so does every sign between terms, since no term becomes a constant.
-/

namespace SymCalc

open SymCalc.Expr Finset
open Double (Agree exact exact_of_agree exact_of_beq_zero zero_beq_zero)

/-! ## Calls -/

namespace Expr

variable {e : Expr}

/-- The expression is a call. -/
def IsCall : Expr → Prop
  | call _ _ _ => True
  | _ => False

/-- Calls have no exact rational value. -/
theorem not_isCall_of_rational {x v : ℚ} (h : e.rational x = some v) :
    e.Everywhere (¬IsCall ·) := by
  induction e generalizing v with
  | const c => exact everywhere_const.mpr id
  | var => exact everywhere_var.mpr id
  | unary op e ih =>
    refine everywhere_unary.mpr ⟨id, ?_⟩
    cases op with
    | negate =>
      obtain ⟨a, he, -⟩ := Option.map_eq_some_iff.mp h
      exact ih he
    | keep => exact ih h
  | binary op l r ihl ihr =>
    obtain ⟨a, hl, h⟩ := Option.bind_eq_some_iff.mp h
    obtain ⟨b, hr, -⟩ := Option.bind_eq_some_iff.mp h
    exact everywhere_binary.mpr ⟨id, ihl hl, ihr hr⟩
  | call name base e _ => cases h

end Expr

namespace Polynomial

variable {p : Polynomial} {ε : Float} {t : ℕ × Float} {ts : List (ℕ × Float)} {e d s : Expr}
  {k : ℕ} {x v : ℚ}

theorem ofNat_beq_zero (hk : k ≤ 2 ^ 53) : (Float.ofNat k == 0.0) = decide (k = 0) := by
  rw [Bool.eq_iff_iff, decide_eq_true_iff]
  constructor
  · intro h
    have hexact := exact_of_beq_zero h
    rw [Double.exact_ofNat hk] at hexact
    exact_mod_cast hexact
  · rintro rfl
    decide

theorem ofNat_beq_one (hk : k ≤ 2 ^ 53) : (Float.ofNat k == 1.0) = decide (k = 1) := by
  rw [Bool.eq_iff_iff, decide_eq_true_iff]
  constructor
  · intro h
    have hexact := Double.exact_ofNat hk
    rw [Double.eq_of_beq_one h, Double.exact_one] at hexact
    exact_mod_cast hexact.symm
  · rintro rfl
    decide

/-! ## Simplified forms -/

/-- The simplified form of a power of `x`. -/
def powerForm : ℕ → Expr
  | 0 => number 1.0
  | 1 => var
  | k => binary .pow var (number (Float.ofNat k))

/-- The simplified derivative of a power of `x`. -/
def powerSlope (k : ℕ) : Expr :=
  if k = 0 then binary .div (number (Float.ofNat k)) var
  else binary .mul (powerForm k) (binary .div (number (Float.ofNat k)) var)

/-- The simplified derivative of a term. -/
def termSlope (t : ℕ × Float) : Expr :=
  if t.2 == 1.0 then powerSlope t.1 else binary .mul (number t.2) (powerSlope t.1)

/-- The simplified derivative of a polynomial. -/
def slope (p : Polynomial) : Expr :=
  match p.terms.map termSlope with
  | [] => number 0.0
  | e :: es => es.foldl (binary .add) e

theorem isConst_powerSlope (k : ℕ) : (powerSlope k).isConst = false := by
  rw [powerSlope]
  split_ifs <;> rfl

theorem isConst_termSlope (t : ℕ × Float) : (termSlope t).isConst = false := by
  rw [termSlope]
  split_ifs
  · exact isConst_powerSlope t.1
  · rfl

theorem simplify_power (hk : k ≤ 2 ^ 53) (ε : Float) :
    (binary .pow var (number (Float.ofNat k))).simplify ε = .ok (powerForm k) := by
  rw [simplify_binary simplify_var (simplify_number _) (Or.inl rfl), reduce, isNumber_number_zero,
    isNumber_number_one, ofNat_beq_zero hk, ofNat_beq_one hk]
  rcases k with _ | _ | k
  · rfl
  · rfl
  · simp [powerForm]

/-- What the product rule adds for the coefficient vanishes. -/
theorem simplify_zero_mul_power (hk : k ≤ 2 ^ 53) (ε : Float) :
    (binary .mul (number 0.0) (binary .pow var (number (Float.ofNat k)))).simplify ε =
      .ok (number 0.0) :=
  simplify_zero_mul (simplify_number 0.0) (simplify_power hk ε)

/-- The logarithm of the general rule for powers vanishes. -/
theorem simplify_exponentRule (hk : k ≤ 2 ^ 53) (ε : Float) :
    (binary .add (binary .mul (number 0.0) (ln var))
      (binary .div (binary .mul (number (Float.ofNat k)) (number 1.0)) var)).simplify ε =
      .ok (binary .div (number (Float.ofNat k)) var) := by
  have hlogarithm : (binary .mul (number 0.0) (ln var)).simplify ε = .ok (number 0.0) := rfl
  have hproduct : (binary .mul (number (Float.ofNat k)) (number 1.0)).simplify ε =
      .ok (number (Float.ofNat k)) :=
    simplify_mul_one (Double.isFinite_ofNat hk)
  have hquotient : (binary .div _ var).simplify ε = _ :=
    simplify_binary hproduct simplify_var (Or.inr rfl)
  exact simplify_zero_add hlogarithm hquotient rfl

/-- **A power of `x` has its slope.** -/
theorem simplify_powerRule (hk : k ≤ 2 ^ 53) (ε : Float) :
    (operationDerivative .pow var (number (Float.ofNat k)) (number 1.0) (number 0.0)).simplify ε =
      .ok (powerSlope k) := by
  have h : (binary .mul _ _).simplify ε = _ :=
    simplify_binary (simplify_power hk ε) (simplify_exponentRule hk ε) (Or.inr rfl)
  rcases k with _ | _ | k <;> exact h

/-- **A term has its slope.** -/
theorem exists_derivative_termExpr (hk : t.1 ≤ 2 ^ 53) (hc : (t.2 == 0.0) = false) (ε : Float) :
    ∃ d, (termExpr t).derivative = .ok d ∧ d.simplify ε = .ok (termSlope t) := by
  refine ⟨_, rfl, ?_⟩
  have hproduct : (binary .mul (number t.2) _).simplify ε = _ :=
    simplify_binary (simplify_number t.2) (simplify_powerRule hk ε)
      (Or.inr (isConst_powerSlope t.1))
  have hreduce : (binary .mul (number t.2) (powerSlope t.1)).reduce = termSlope t := by
    rw [reduce, isNumber_number_zero, isNumber_number_one, hc,
      isNumber_of_isConst_eq_false (isConst_powerSlope t.1),
      isNumber_of_isConst_eq_false (isConst_powerSlope t.1), termSlope]
    simp
  rw [hreduce] at hproduct
  exact simplify_zero_add (simplify_zero_mul_power hk ε) hproduct (isConst_termSlope t)

/-- Further terms are added. -/
theorem exists_derivative_foldl (hts : ∀ t ∈ ts, t.1 ≤ 2 ^ 53 ∧ (t.2 == 0.0) = false)
    (hd : e.derivative = .ok d) (hs : d.simplify ε = .ok s) (hconst : s.isConst = false) :
    ∃ d', ((ts.map termExpr).foldl (binary .add) e).derivative = .ok d' ∧
      d'.simplify ε = .ok ((ts.map termSlope).foldl (binary .add) s) := by
  induction ts generalizing e d s with
  | nil => exact ⟨d, hd, hs⟩
  | cons t ts ih =>
    obtain ⟨⟨hk, hc⟩, hts⟩ := List.forall_mem_cons.mp hts
    obtain ⟨dt, hdt, hst⟩ := exists_derivative_termExpr hk hc ε
    have hsum : (binary .add e (termExpr t)).derivative = .ok (binary .add d dt) :=
      bind_eq_ok.mpr ⟨d, hd, bind_eq_ok.mpr ⟨dt, hdt, rfl⟩⟩
    exact ih hts hsum (simplify_add hs hst hconst (isConst_termSlope t)) rfl

/-- **The simplified derivative of a polynomial is its slope.** -/
theorem simplify_derivative_toExpr (hdegree : p.degree ≤ 2 ^ 53) (ε : Float) :
    ∃ d, p.toExpr.derivative = .ok d ∧ d.simplify ε = .ok p.slope := by
  have hts : ∀ t ∈ p.terms, t.1 ≤ 2 ^ 53 ∧ (t.2 == 0.0) = false := by
    intro t ht
    obtain ⟨hle, -, hc⟩ := of_mem_terms ht
    exact ⟨hle.trans hdegree, hc⟩
  rw [toExpr, slope]
  cases hterms : p.terms with
  | nil => exact ⟨number 0.0, rfl, rfl⟩
  | cons t ts =>
    rw [hterms] at hts
    obtain ⟨⟨hk, hc⟩, hts⟩ := List.forall_mem_cons.mp hts
    obtain ⟨d, hd, hs⟩ := exists_derivative_termExpr hk hc ε
    exact exists_derivative_foldl hts hd hs (isConst_termSlope t)

/-! ## Exact values -/

theorem rational_powerForm (hk : k ≤ 2 ^ 53) (x : ℚ) :
    (powerForm k).rational x = some (x ^ k) := by
  rcases k with _ | _ | k
  · rw [powerForm, rational_number rfl, Double.exact_one, pow_zero]
  · rw [powerForm, rational_var, zero_add, pow_one]
  · exact rational_pow rational_var (rational_ofNat hk)

theorem rational_powerSlope (hk : k ≤ 2 ^ 53) (hx : x ≠ 0) :
    (powerSlope k).rational x = some (k * x ^ (k - 1)) := by
  have hquotient : (binary .div (number (Float.ofNat k)) var).rational x = some (k / x) :=
    rational_div (rational_ofNat hk) rational_var hx
  rw [powerSlope]
  split_ifs with hzero
  · rw [hquotient, hzero]
    simp
  · rw [rational_binary (rational_powerForm hk x) hquotient, BinaryOp.rational]
    obtain ⟨j, rfl⟩ := Nat.exists_eq_succ_of_ne_zero hzero
    rw [Nat.succ_sub_one, pow_succ]
    field_simp

theorem rational_termSlope (hk : t.1 ≤ 2 ^ 53) (hc : t.2.isFinite) (hx : x ≠ 0) :
    (termSlope t).rational x = some (t.1 * exact t.2 * x ^ (t.1 - 1)) := by
  rw [termSlope]
  split_ifs with hone
  · rw [rational_powerSlope hk hx, Double.eq_of_beq_one hone, Double.exact_one, mul_one]
  · rw [rational_binary (rational_number hc) (rational_powerSlope hk hx), BinaryOp.rational]
    congr 1
    ring

/-- **The value of the slope** is the sum over all coefficients but the first. -/
theorem rational_slope (hp : p.IsFinite) (hdegree : p.degree ≤ 2 ^ 53) (hx : x ≠ 0) :
    p.slope.rational x =
      some (∑ k ∈ Icc 1 p.degree, k * exact (p.coefficient k) * x ^ (k - 1)) := by
  have hts : ∀ t ∈ p.terms,
      (termSlope t).rational x = some (t.1 * exact t.2 * x ^ (t.1 - 1)) := by
    intro t ht
    obtain ⟨hle, hmem, -⟩ := of_mem_terms ht
    exact rational_termSlope (hle.trans hdegree) (hp t.2 hmem) hx
  have hsum : (p.terms.map fun t => t.1 * exact t.2 * x ^ (t.1 - 1)).sum =
      ∑ k ∈ Icc 1 p.degree, k * exact (p.coefficient k) * x ^ (k - 1) := by
    rw [sum_terms (F := fun k c => k * exact c * x ^ (k - 1)), range_eq_Ico,
      sum_eq_sum_Ico_succ_bot (Nat.succ_pos _), Nat.cast_zero, zero_mul, zero_mul, zero_add]
    · rfl
    · intro k c hc
      rw [exact_of_beq_zero hc, mul_zero, zero_mul]
  rw [← hsum, slope]
  exact rational_sum hts

/-! ## Coefficients of the derivative -/

theorem degree_derivative_le (p : Polynomial) : p.derivative.degree ≤ p.degree - 1 := by
  rw [derivative]
  cases hhigher : p.higher with
  | nil => exact Nat.zero_le _
  | cons c cs =>
    rw [List.mapIdx_cons, degree, degree, hhigher, List.length_cons, Nat.add_sub_cancel]
    refine (dropZeros_isPrefix _).length_le.trans_eq ?_
    rw [List.length_mapIdx]

theorem getD_mapIdx_higher (hk : k < p.degree) :
    (p.higher.mapIdx fun k c => Float.ofNat (k + 1) * c).getD k 0.0 =
      Float.ofNat (k + 1) * p.coefficient (k + 1) := by
  rw [List.getD_eq_getElem?_getD, List.getElem?_mapIdx, coefficient, coefficients,
    List.getD_cons_succ, List.getD_eq_getElem?_getD, List.getElem?_eq_getElem hk]
  rfl

/-- **A coefficient of the derivative** is the product of a coefficient and its power. -/
theorem agree_coefficient_derivative (hk : k < p.degree) :
    Agree (p.derivative.coefficient k) (Float.ofNat (k + 1) * p.coefficient (k + 1)) := by
  rw [← getD_mapIdx_higher hk]
  exact agree_coefficient_ofCoefficients _ k

/-- The value of the derivative, if none of its coefficients is rounded. -/
theorem value_derivative (h : ∀ k ∈ Icc 1 p.degree,
    exact (Float.ofNat k * p.coefficient k) = k * exact (p.coefficient k)) (x : ℚ) :
    p.derivative.value x = ∑ k ∈ Icc 1 p.degree, k * exact (p.coefficient k) * x ^ (k - 1) := by
  have hshift : ∑ k ∈ Icc 1 p.degree, (k : ℚ) * exact (p.coefficient k) * x ^ (k - 1) =
      ∑ k ∈ range p.degree, ((k + 1 : ℕ) : ℚ) * exact (p.coefficient (k + 1)) * x ^ k := by
    rw [range_eq_Ico]
    exact (sum_Ico_add' (fun k : ℕ => (k : ℚ) * exact (p.coefficient k) * x ^ (k - 1)) 0 _ 1).symm
  rw [hshift, derivative, value_ofCoefficients, List.length_mapIdx]
  refine sum_congr rfl fun k hk => ?_
  have hk : k < p.degree := mem_range.mp hk
  rw [getD_mapIdx_higher hk, h (k + 1) (mem_Icc.mpr ⟨Nat.le_add_left 1 k, hk⟩)]

/-- **Differentiating a polynomial as an expression agrees with differentiating its
coefficients.** The simplified derivative of the expression has no calls, and its exact value is the
sum of the products of each coefficient but the first with its power. The derivative of the
polynomial has these products as coefficients, rounded to doubles, and the same value if none of
them has to be rounded. -/
theorem slope_correct (hp : p.IsFinite) (hdegree : p.degree ≤ 2 ^ 53) (ε : Float) :
    ∃ d s, p.toExpr.derivative = .ok d ∧ d.simplify ε = .ok s ∧ s.Everywhere (¬IsCall ·) ∧
      (∀ x : ℚ, x ≠ 0 → s.rational x =
        some (∑ k ∈ Icc 1 p.degree, k * exact (p.coefficient k) * x ^ (k - 1))) ∧
      p.derivative.degree ≤ p.degree - 1 ∧
      (∀ k ∈ Icc 1 p.degree, exact (Float.ofNat k) = k ∧
        Agree (p.derivative.coefficient (k - 1)) (Float.ofNat k * p.coefficient k)) ∧
      ((∀ k ∈ Icc 1 p.degree,
          exact (Float.ofNat k * p.coefficient k) = k * exact (p.coefficient k)) →
        ∀ x : ℚ, x ≠ 0 → s.rational x = some (p.derivative.value x)) := by
  obtain ⟨d, hd, hs⟩ := simplify_derivative_toExpr hdegree ε
  have hvalue : ∀ x : ℚ, x ≠ 0 → p.slope.rational x = some _ := fun x hx =>
    rational_slope hp hdegree hx
  have hcalls := not_isCall_of_rational (hvalue 1 one_ne_zero)
  refine ⟨d, p.slope, hd, hs, hcalls, hvalue, p.degree_derivative_le, ?_, ?_⟩
  · intro k hk
    obtain ⟨hle, hle'⟩ := mem_Icc.mp hk
    obtain ⟨j, rfl⟩ := Nat.exists_eq_add_of_le' hle
    exact ⟨Double.exact_ofNat (hle'.trans hdegree), agree_coefficient_derivative hle'⟩
  · intro hproducts x hx
    rw [hvalue x hx, value_derivative hproducts]

/-- The derivative of `2x^2 - x + 1`, at a number below zero. -/
theorem slope_correct_quadratic :
    ∃ d s, (ofCoefficients [1.0, -1.0, 2.0]).toExpr.derivative = .ok d ∧
      d.simplify 1e-10 = .ok s ∧ s.Everywhere (¬IsCall ·) ∧ s.rational (-2) = some (-9) := by
  have hfin : (ofCoefficients [1.0, -1.0, 2.0]).IsFinite := List.all_eq_true.mp (by decide)
  have hdegree : (ofCoefficients [1.0, -1.0, 2.0]).degree = 2 := by decide
  have hone : (ofCoefficients [1.0, -1.0, 2.0]).coefficient 1 = -1.0 := by decide
  have htwo : (ofCoefficients [1.0, -1.0, 2.0]).coefficient 2 = 2.0 := by decide
  obtain ⟨d, s, hd, hs, hcalls, hvalue, -⟩ := slope_correct hfin (by rw [hdegree]; decide) 1e-10
  refine ⟨d, s, hd, hs, hcalls, ?_⟩
  rw [hvalue (-2) (by norm_num), hdegree, show Icc 1 2 = {1, 2} by decide, sum_pair (by decide),
    hone, htwo, Double.exact_negOne, Double.exact_two]
  norm_num

end Polynomial

end SymCalc
