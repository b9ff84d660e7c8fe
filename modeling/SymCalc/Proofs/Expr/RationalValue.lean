import SymCalc.Proofs.Expr.Differentiation

/-!
# Exact rational values

At a rational number, expressions without calls can be evaluated exactly. `Expr.rational` does so
where every divisor is other than zero and every exponent is a natural number; a power is then a
repeated multiplication, and `0^0` is one.

**Theorem (`real_of_rational`).** Where there is an exact rational value, it is the exact value.
-/

namespace SymCalc

open Double

namespace Double

open Float.Model UnpackedFloat

variable {x y : Float}

theorem exact_of_agree (h : Agree x y) : exact x = exact y := by
  rcases h with rfl | ⟨hx, hy⟩
  · rfl
  · rw [exact_of_beq_zero hx, exact_of_beq_zero hy]

theorem exact_neg (x : Float) : exact (-x) = -exact x := by
  rw [exact, exact, parts_neg]
  cases parts x with
  | finite s m e hm => cases s <;> simp [UnpackedFloat.neg, Sign.apply]
  | _ => simp [UnpackedFloat.neg]

theorem isFinite_neg (x : Float) : (-x).isFinite = x.isFinite := by
  show (parts (-x)).isFinite = (parts x).isFinite
  rw [parts_neg]
  cases parts x <;> rfl

end Double

/-- The exact value of an operation on rational numbers: not a division by zero, and a power only
if the exponent is a natural number. -/
def BinaryOp.rational : BinaryOp → ℚ → ℚ → Option ℚ
  | add, a, b => some (a + b)
  | sub, a, b => some (a - b)
  | mul, a, b => some (a * b)
  | div, a, b => if b = 0 then none else some (a / b)
  | pow, a, b => if b = b.num.toNat then some (a ^ b.num.toNat) else none

namespace Expr

/-- The exact value of an expression at a rational number. -/
def rational (x : ℚ) : Expr → Option ℚ
  | const c => if c.value.isFinite then some (exact c.value) else none
  | var => some x
  | unary .negate e => (e.rational x).map (-·)
  | unary .keep e => e.rational x
  | binary op l r => do op.rational (← l.rational x) (← r.rational x)
  | call _ _ _ => none

variable {x a b v : ℚ} {e l r : Expr} {n : ℕ}

@[simp] theorem rational_var : var.rational x = some x := rfl

theorem rational_number {c : Float} (hc : c.isFinite) :
    (number c).rational x = some (exact c) := by
  have hexact : exact (Constant.ofFloat c).value = exact c :=
    (exact_of_agree (Constant.agree_ofFloat c)).symm
  rw [number, rational, if_pos (Constant.isFinite_ofFloat hc), hexact]

theorem rational_ofNat (hn : n ≤ 2 ^ 53) : (number (Float.ofNat n)).rational x = some (n : ℚ) := by
  rw [rational_number (isFinite_ofNat hn), exact_ofNat hn]

theorem rational_negate (he : e.rational x = some a) :
    (unary .negate e).rational x = some (-a) := by
  rw [rational, he]
  rfl

section

variable (hl : l.rational x = some a) (hr : r.rational x = some b)
include hl hr

theorem rational_binary (op : BinaryOp) : (binary op l r).rational x = op.rational a b := by
  rw [rational, hl, hr]
  rfl

theorem rational_div (hb : b ≠ 0) : (binary .div l r).rational x = some (a / b) := by
  rw [rational_binary hl hr, BinaryOp.rational, if_neg hb]

end

theorem rational_pow (hl : l.rational x = some a) (hr : r.rational x = some (n : ℚ)) :
    (binary .pow l r).rational x = some (a ^ n) := by
  rw [rational_binary hl hr, BinaryOp.rational, Rat.num_natCast, Int.toNat_natCast, if_pos rfl]

/-- **An exact rational value is the exact value.** -/
theorem real_of_rational (h : e.rational x = some v) : e.real x = v := by
  induction e generalizing v with
  | const c =>
    rw [rational] at h
    split_ifs at h
    cases h
    rfl
  | var =>
    cases h
    rfl
  | unary op e ih =>
    cases op with
    | negate =>
      obtain ⟨a, he, rfl⟩ := Option.map_eq_some_iff.mp h
      rw [real, ih he, Rat.cast_neg]
    | keep => exact ih h
  | binary op l r ihl ihr =>
    obtain ⟨a, hl, h⟩ := Option.bind_eq_some_iff.mp h
    obtain ⟨b, hr, h⟩ := Option.bind_eq_some_iff.mp h
    have ha := ihl hl
    have hb := ihr hr
    cases op with
    | add =>
      cases h
      rw [real, ha, hb, Rat.cast_add]
    | sub =>
      cases h
      rw [real, ha, hb, Rat.cast_sub]
    | mul =>
      cases h
      rw [real, ha, hb, Rat.cast_mul]
    | div =>
      rw [BinaryOp.rational] at h
      split_ifs at h
      cases h
      rw [real, ha, hb, Rat.cast_div]
    | pow =>
      rw [BinaryOp.rational] at h
      split_ifs at h with hnatural
      cases h
      generalize b.num.toNat = n at hnatural
      have hexponent : r.real x = (n : ℤ) := by
        rw [hb, hnatural]
        simp
      rw [real_pow_of_whole hexponent, ha, zpow_natCast, Rat.cast_pow]
  | call name base e _ => cases h

end Expr

end SymCalc
