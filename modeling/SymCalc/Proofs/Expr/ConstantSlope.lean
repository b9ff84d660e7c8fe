import SymCalc.Proofs.Expr.Differentiability
import SymCalc.Proofs.Expr.Differentiation
import SymCalc.Proofs.Expr.SimplifiedNodes

/-!
# Derivatives of constants

**Theorem (`slope_of_constant`).** Take an expression without the variable, all of whose values are
finite. Its derivative simplifies to zero if no quotient that the rules make has a divisor that
counts as zero, and otherwise the derivative of some part of it does not.

The rules multiply everything but the derivatives of the operands by one of these, and a product
with zero is zero. What remains are the divisors. The rule for quotients divides by the square of
the divisor, which may count as zero, or be infinite, although the divisor itself does not. The rule
for powers divides by the base, which may count as zero too; but the power is a factor of the
result, and the result is zero if the power is. The quotient `0/0` of the rule for `0^0` stays
(`slope_of_power_of_zero`).
-/

namespace SymCalc.Expr

open Double

variable {ε x a b v : Float} {t d e l r l' r' s : Expr} {op : BinaryOp}

/-! ## Quotients with the numerator zero -/

/-- A quotient that cannot be evaluated is simplified by the laws. -/
theorem simplifyNode_of_error {node : Expr} {err : EvaluationError}
    (h : node.evaluate ε 0.0 = .error (.evaluation err)) :
    simplifyNode ε node = .ok node.reduce := by
  rw [simplifyNode, fold?, h]
  split_ifs <;> rfl

/-- Zero divided by a number is zero, unless that counts as zero. -/
theorem simplify_zero_div (hε : 0.0 < ε) (hl : l.simplify ε = .ok (number 0.0))
    (hr : r.simplify ε = .ok (number b)) (hb : b.isFinite) (hlarge : ¬b.abs < ε) :
    (binary .div l r).simplify ε = .ok (number 0.0) := by
  have hne : ¬(b == 0.0) = true := ne_zero_of_not_lt hε hlarge
  have hzero : (0.0 / b == 0.0) = true := zero_div zero_beq_zero hb hne
  have hfin : (0.0 / b).isFinite := isFinite_of_agree (Or.inr ⟨zero_beq_zero, hzero⟩) rfl
  have hdivide : operate ε (binary .div l r) .div 0.0 b = .ok (0.0 / b) :=
    divide_eq_ok.mpr ⟨hlarge, hne, rfl⟩
  rw [simplify_binary_of_value hl hr hb hdivide hfin, number_eq_zero hzero]

/-- A quotient stays if its divisor counts as zero. -/
theorem simplify_div_small (hε : ¬1.0 < ε) (hl : l.simplify ε = .ok (number a))
    (hr : r.simplify ε = .ok (number b)) (hsmall : b.abs < ε) :
    (binary .div l r).simplify ε = .ok (binary .div (number a) (number b)) := by
  have hsmall' : (Constant.ofFloat b).value.abs < ε :=
    abs_lt_of_agree (Constant.agree_ofFloat b) hsmall
  have herror : (binary .div (number a) (number b)).evaluate ε 0.0 =
      .error (.evaluation (.divisionByZero _ _)) := if_pos hsmall'
  have hone : ¬(b == 1.0) = true := by
    intro hone
    rw [eq_of_beq_one hone] at hsmall
    exact hε hsmall
  rw [simplify, hl, hr]
  refine (simplifyNode_of_error herror).trans ?_
  rw [reduce, isNumber_number_one, if_neg hone]

/-! ## Simplified squares -/

theorem simplify_square (hr : r.simplify ε = .ok (number b)) (h : (pow b 2.0).isFinite) :
    (binary .pow r (number 2.0)).simplify ε = .ok (number (pow b 2.0)) :=
  simplify_binary_of_value hr (simplify_number 2.0) rfl rfl h

/-- A square that is not finite stays. -/
theorem simplify_square_of_not_finite (hr : r.simplify ε = .ok (number b))
    (h : ¬(pow b 2.0).isFinite) :
    (binary .pow r (number 2.0)).simplify ε = .ok (binary .pow (number b) (number 2.0)) := by
  have hvalue : (binary .pow (number b) (number 2.0)).evaluate ε 0.0 =
      .ok (pow (Constant.ofFloat b).value 2.0) := rfl
  have hagree : Agree (pow b 2.0) (pow (Constant.ofFloat b).value 2.0) :=
    (Constant.agree_ofFloat b).pow (Agree.refl 2.0) fun _ hneg => absurd hneg (by decide)
  rw [simplify, hr]
  rcases simplifyNode_of_hasValue (by simp [children]) hvalue with ⟨hfin, -⟩ | hs
  · exact absurd (isFinite_of_agree hagree.symm hfin) h
  · exact hs

/-! ## Rules for operations -/

/-- The derivative of the expression simplifies to zero. -/
def HasZeroSlope (ε : Float) (t : Expr) : Prop :=
  ∃ d, t.derivative = .ok d ∧ d.simplify ε = .ok (number 0.0)

/-- The rule for the node divides by nothing that counts as zero, or it multiplies the quotient by a
power that is zero. The square of a divisor must not become infinite either. -/
def HasSafeDivisors (ε x : Float) : Expr → Prop
  | binary .div _ r =>
    ∀ b, r.evaluate ε x = .ok b → (pow b 2.0).isFinite ∧ ¬(pow b 2.0).abs < ε
  | binary .pow l r =>
    ∀ a b, l.evaluate ε x = .ok a → r.evaluate ε x = .ok b →
      ¬a.abs < ε ∨ (pow a b == 0.0) = true
  | _ => True

section

variable (hl' : l'.simplify ε = .ok (number 0.0)) (hr' : r'.simplify ε = .ok (number 0.0))
include hl' hr'

theorem simplify_zero_plus_zero : (binary .add l' r').simplify ε = .ok (number 0.0) :=
  simplify_binary_of_value hl' hr' rfl rfl rfl

theorem simplify_zero_minus_zero : (binary .sub l' r').simplify ε = .ok (number 0.0) :=
  simplify_binary_of_value hl' hr' rfl rfl rfl

theorem simplify_productRule (hl : l.simplify ε = .ok (number a))
    (hr : r.simplify ε = .ok (number b)) :
    (operationDerivative .mul l r l' r').simplify ε = .ok (number 0.0) :=
  simplify_zero_plus_zero (simplify_zero_mul hl' hr) (simplify_mul_zero hl hr')

theorem simplify_quotientRule_iff (hε : 0.0 < ε) (hone : ¬1.0 < ε)
    (hl : l.simplify ε = .ok (number a)) (hr : r.simplify ε = .ok (number b)) :
    (operationDerivative .div l r l' r').simplify ε = .ok (number 0.0) ↔
      (pow b 2.0).isFinite ∧ ¬(pow b 2.0).abs < ε := by
  have hnumerator : (binary .sub (binary .mul l' r) (binary .mul l r')).simplify ε =
      .ok (number 0.0) :=
    simplify_zero_minus_zero (simplify_zero_mul hl' hr) (simplify_mul_zero hl hr')
  rw [operationDerivative]
  by_cases hfin : (pow b 2.0).isFinite
  · have hsquare := simplify_square hr hfin
    by_cases hsmall : (pow b 2.0).abs < ε
    · rw [simplify_div_small hone hnumerator hsquare hsmall]
      simp [hsmall, number]
    · rw [simplify_zero_div hε hnumerator hsquare hfin hsmall]
      simp [hfin, hsmall]
  · have hsquare := simplify_square_of_not_finite hr hfin
    have hquotient : (binary .div _ _).simplify ε = _ :=
      simplify_binary hnumerator hsquare (Or.inr rfl)
    rw [hquotient]
    simp [hfin, reduce, isNumber, number]

theorem simplify_powerRule_iff (hε : 0.0 < ε) (hone : ¬1.0 < ε)
    (hl : l.simplify ε = .ok (number a)) (hr : r.simplify ε = .ok (number b))
    (ha : a.isFinite) (hb : b.isFinite) (hv : (pow a b).isFinite)
    (hln : (ln l).simplify ε = .ok s) :
    (operationDerivative .pow l r l' r').simplify ε = .ok (number 0.0) ↔
      ¬a.abs < ε ∨ (pow a b == 0.0) = true := by
  have hpow : (binary .pow l r).simplify ε = .ok (number (pow a b)) :=
    simplify_binary_of_value hl hr hb rfl hv
  have hlogarithm : (binary .mul r' (ln l)).simplify ε = .ok (number 0.0) :=
    simplify_zero_mul hr' hln
  have hproduct : (binary .mul r l').simplify ε = .ok (number 0.0) := simplify_mul_zero hr hl'
  rw [operationDerivative]
  by_cases hsmall : a.abs < ε
  · have hquotient := simplify_div_small hone hproduct hl hsmall
    have hsum := simplify_zero_add hlogarithm hquotient rfl
    have hrule : (binary .mul _ _).simplify ε = _ := simplify_binary hpow hsum (Or.inr rfl)
    rw [hrule, reduce, isNumber_number_zero, isNumber_number_one]
    split_ifs <;> simp_all [isNumber, number]
  · have hquotient := simplify_zero_div hε hproduct hl ha hsmall
    have hsum := simplify_zero_plus_zero hlogarithm hquotient
    rw [simplify_mul_zero hpow hsum]
    simp [hsmall]

end

/-! ## Whole expressions -/

theorem hasNaturalBase_of_isElementary (h : IsElementary t) : HasNaturalBase t := by
  cases t with
  | call name base e =>
    intro hlog b hb
    subst hlog
    obtain ⟨c, rfl, hc, -⟩ : ∃ c : ℤ, base = some c ∧ 2 ≤ c ∧ c ≤ 2 ^ 53 := by
      simpa [IsElementary] using h
    cases hb
    omega
  | _ => trivial

theorem isDifferentiable_of_isElementary (h : IsElementary t) : IsDifferentiable t := by
  cases t with
  | call name base e =>
    obtain rfl | rfl | rfl | rfl | ⟨rfl, b, rfl, hb, hb'⟩ := h
    · exact Or.inl (by decide)
    · exact Or.inl (by decide)
    · exact Or.inl (by decide)
    · exact Or.inl (by decide)
    · obtain ⟨n, rfl⟩ := Int.eq_ofNat_of_zero_le (by omega : 0 ≤ b)
      have hfin : (Float.ofInt n).isFinite := isFinite_ofNat (by exact_mod_cast hb')
      exact Or.inr ⟨rfl, n, rfl, by omega, by omega, hfin⟩
  | _ => trivial

theorem hasZeroSlope_unary {op : UnaryOp} (he : e.HasZeroSlope ε) :
    (unary op e).HasZeroSlope ε := by
  obtain ⟨e', he', hs⟩ := he
  cases op with
  | negate =>
    have hd : (unary .negate e).derivative = .ok (unary .negate e') := by
      rw [derivative, he']
      rfl
    refine ⟨unary .negate e', hd, ?_⟩
    rw [simplify_unary_of_value hs rfl, number_eq_zero rfl]
  | keep => exact ⟨e', he', hs⟩

/-- Whatever the outer derivative is, the chain rule multiplies it by zero. -/
theorem hasZeroSlope_call {name : String} {base : Option ℤ} (hε : 0.0 < ε)
    (ht : (call name base e).Everywhere IsElementary) (he : e.HasZeroSlope ε) :
    (call name base e).HasZeroSlope ε := by
  obtain ⟨e', he', hs'⟩ := he
  obtain ⟨outer, houter⟩ := (exists_outerDerivative_iff (call name base e)).mpr
    (isDifferentiable_of_isElementary ht.root)
  have hd : (call name base e).derivative = .ok (binary .mul outer e') := by
    rw [derivative, he', houter]
    rfl
  have hnatural : (call name base e).Everywhere HasNaturalBase := fun n hn =>
    hasNaturalBase_of_isElementary (ht n hn)
  obtain ⟨-, hnatural', -⟩ := everywhere_binary.mp (natural_derivative hnatural hd)
  obtain ⟨s, hs⟩ := exists_simplify hε hnatural'
  exact ⟨binary .mul outer e', hd, simplify_mul_zero hs hs'⟩

/-- **One operation**: over operands whose derivatives simplify to zero, its divisors decide. -/
theorem hasZeroSlope_binary_iff (hε : 0.0 < ε) (hone : ¬1.0 < ε)
    (ht : (binary op l r).Everywhere IsElementary)
    (hvar : (binary op l r).Everywhere (· ≠ var))
    (hfin : (binary op l r).Everywhere (HasFiniteValueAt ε x))
    (hl : l.HasZeroSlope ε) (hr : r.HasZeroSlope ε) :
    (binary op l r).HasZeroSlope ε ↔ HasSafeDivisors ε x (binary op l r) := by
  obtain ⟨-, htl, -⟩ := everywhere_binary.mp ht
  obtain ⟨-, hvarl, hvarr⟩ := everywhere_binary.mp hvar
  obtain ⟨-, hfinl, hfinr⟩ := everywhere_binary.mp hfin
  obtain ⟨v, hv, hvfin⟩ := hfin.root
  obtain ⟨a, b, ha, hb, hop⟩ := evaluate_binary.mp hv
  have hla := simplify_of_ne_var hvarl hfinl ha
  have hrb := simplify_of_ne_var hvarr hfinr hb
  obtain ⟨l', hl', hsl⟩ := hl
  obtain ⟨r', hr', hsr⟩ := hr
  have hd : (binary op l r).derivative = .ok (operationDerivative op l r l' r') := by
    rw [derivative, hl', hr']
    rfl
  have hrule : (binary op l r).HasZeroSlope ε ↔
      (operationDerivative op l r l' r').simplify ε = .ok (number 0.0) := by
    simp [HasZeroSlope, hd]
  rw [hrule]
  cases op with
  | add => exact iff_of_true (simplify_zero_plus_zero hsl hsr) trivial
  | sub => exact iff_of_true (simplify_zero_minus_zero hsl hsr) trivial
  | mul => exact iff_of_true (simplify_productRule hsl hsr hla hrb) trivial
  | div =>
    rw [simplify_quotientRule_iff hsl hsr hε hone hla hrb]
    simp [HasSafeDivisors, hb]
  | pow =>
    cases hop
    have hlnatural : (ln l).Everywhere HasNaturalBase := by
      refine everywhere_call.mpr ⟨?_, fun n hn => hasNaturalBase_of_isElementary (htl n hn)⟩
      simp [HasNaturalBase]
    obtain ⟨s, hs⟩ := exists_simplify hε hlnatural
    rw [simplify_powerRule_iff hsl hsr hε hone hla hrb (hfinl.root.isFinite ha)
      (hfinr.root.isFinite hb) hvfin hs]
    simp [HasSafeDivisors, ha, hb]

/-- The derivatives of all parts of a constant simplify to zero exactly if all divisors are safe. -/
theorem hasZeroSlope_iff (hε : 0.0 < ε) (hone : ¬1.0 < ε) (hvar : t.Everywhere (· ≠ var))
    (ht : t.Everywhere IsElementary) (hfin : t.Everywhere (HasFiniteValueAt ε x)) :
    t.Everywhere (HasZeroSlope ε) ↔ t.Everywhere (HasSafeDivisors ε x) := by
  induction t with
  | const c => simp [HasSafeDivisors, HasZeroSlope, derivative, simplify_number]
  | var => exact absurd rfl (everywhere_var.mp hvar)
  | unary op e ih =>
    obtain ⟨-, hvare⟩ := everywhere_unary.mp hvar
    obtain ⟨-, hte⟩ := everywhere_unary.mp ht
    obtain ⟨-, hfine⟩ := everywhere_unary.mp hfin
    rw [everywhere_unary, everywhere_unary, ← ih hvare hte hfine]
    exact and_congr_left fun he => iff_of_true (hasZeroSlope_unary he.root) trivial
  | binary op l r ihl ihr =>
    obtain ⟨-, hvarl, hvarr⟩ := everywhere_binary.mp hvar
    obtain ⟨-, htl, htr⟩ := everywhere_binary.mp ht
    obtain ⟨-, hfinl, hfinr⟩ := everywhere_binary.mp hfin
    rw [everywhere_binary, everywhere_binary, ← ihl hvarl htl hfinl, ← ihr hvarr htr hfinr]
    refine and_congr_left fun hslopes => ?_
    obtain ⟨hl, hr⟩ := hslopes
    exact hasZeroSlope_binary_iff hε hone ht hvar hfin hl.root hr.root
  | call name base e ih =>
    obtain ⟨-, hvare⟩ := everywhere_call.mp hvar
    obtain ⟨-, hte⟩ := everywhere_call.mp ht
    obtain ⟨-, hfine⟩ := everywhere_call.mp hfin
    rw [everywhere_call, everywhere_call, ← ih hvare hte hfine]
    exact and_congr_left fun he => iff_of_true (hasZeroSlope_call hε ht he.root) trivial

/-- **The derivative of a constant simplifies to zero**, unless a divisor is in the way. Take an
expression without the variable, all of whose values are finite. If all divisors in the rules for
its nodes are safe, it has a derivative, and that simplifies to zero. This is all that matters: if
one of the divisors is not safe, the derivative of some part does not simplify to zero. -/
theorem slope_of_constant (hε : 0.0 < ε) (hone : ¬1.0 < ε) (hvar : t.Everywhere (· ≠ var))
    (ht : t.Everywhere IsElementary) (hfin : t.Everywhere (HasFiniteValueAt ε x)) :
    (t.Everywhere (HasSafeDivisors ε x) →
      ∃ d, t.derivative = .ok d ∧ d.simplify ε = .ok (number 0.0)) ∧
    (t.Everywhere (HasZeroSlope ε) ↔ t.Everywhere (HasSafeDivisors ε x)) := by
  have hiff := hasZeroSlope_iff hε hone hvar ht hfin
  exact ⟨fun hsafe => (hiff.mpr hsafe).root, hiff⟩

/-- A quotient with the divisor one, and a power that is zero because its base is. -/
theorem slope_of_constant_cosine :
    let t := binary .add (binary .div (number 3.0) (call "cos" none (number 0.0)))
      (binary .pow (number 0.0) (number 2.0))
    ∃ d, t.derivative = .ok d ∧ d.simplify 1e-10 = .ok (number 0.0) := by
  intro t
  have hvar : t.Everywhere (· ≠ var) := by simp [t, number]
  have helementary : t.Everywhere IsElementary := by simp [t, IsElementary, number]
  have hfin : t.Everywhere (HasFiniteValueAt 1e-10 0.0) := by
    simp only [t, everywhere_binary, everywhere_call, number, everywhere_const]
    exact ⟨⟨_, rfl, by decide⟩, ⟨⟨_, rfl, by decide⟩, ⟨_, rfl, by decide⟩, ⟨_, rfl, by decide⟩,
      _, rfl, by decide⟩, ⟨_, rfl, by decide⟩, ⟨_, rfl, by decide⟩, _, rfl, by decide⟩
  have hquotient : (pow 1.0 2.0).isFinite ∧ ¬(pow 1.0 2.0).abs < 1e-10 := by decide
  have hpower : (pow 0.0 2.0 == 0.0) = true := by decide
  have hsafe : t.Everywhere (HasSafeDivisors 1e-10 0.0) := by
    simp only [t, everywhere_binary, everywhere_call, number, everywhere_const]
    refine ⟨trivial, ⟨?_, trivial, trivial, trivial⟩, ?_, trivial, trivial⟩
    · intro b hb
      cases hb
      exact hquotient
    · intro a b ha hb
      cases ha
      cases hb
      exact Or.inr hpower
  exact (slope_of_constant (by decide) (by decide) hvar helementary hfin).1 hsafe

/-- The rule for `0^0` has the quotient `0/0` in it, which is no zero. -/
theorem slope_of_power_of_zero :
    let t := binary .pow (number 0.0) (number 0.0)
    t.Everywhere (· ≠ var) ∧ t.Everywhere IsElementary ∧
      t.Everywhere (HasFiniteValueAt 1e-10 0.0) ∧ ¬t.HasZeroSlope 1e-10 ∧
      ∃ d, t.derivative = .ok d ∧
        d.simplify 1e-10 = .ok (binary .div (number 0.0) (number 0.0)) := by
  intro t
  have hfin : t.Everywhere (HasFiniteValueAt 1e-10 0.0) := by
    simp only [t, everywhere_binary, number, everywhere_const]
    exact ⟨⟨_, rfl, by decide⟩, ⟨_, rfl, by decide⟩, _, rfl, by decide⟩
  obtain ⟨d, hd, hs⟩ : ∃ d, t.derivative = .ok d ∧
      d.simplify 1e-10 = .ok (binary .div (number 0.0) (number 0.0)) := ⟨_, rfl, rfl⟩
  refine ⟨by simp [t, number], by simp [t, IsElementary, number], hfin, ?_, d, hd, hs⟩
  rintro ⟨d', hd', hs'⟩
  cases hd.symm.trans hd'
  cases hs.symm.trans hs'

end SymCalc.Expr
