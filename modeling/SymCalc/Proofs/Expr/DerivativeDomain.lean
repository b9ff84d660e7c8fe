import SymCalc.Proofs.Expr.Differentiability

/-!
# Where derivatives have values

**Theorem (`hasValueAt_of_derivative`).** Where the derivative of an expression has a value, the
expression has one too.

A derivative need not contain the expression: that of a sum has neither of its operands. So the
proof is an induction over the expression, in which a part that the derivative leaves out has a
value because its own derivative, which is there, has one. The one node that may have no value over
operands that do is a quotient. Its derivative divides by the square of the divisor, and where the
divisor counts as zero, so does its square (`abs_square_lt`).

That rests on the library power, of which no more is known than what `SquaresVanish` asks. So it is
proved for an arbitrary library. One that squares by multiplying has the property, with the standard
division epsilon (`squaresVanish_squaringLibrary`).
-/

namespace SymCalc

open Float.Model UnpackedFloat

namespace Double

variable {ε r : Float}

/-! ## Squares -/

theorem zero_lt_abs (hfin : r.isFinite) (hne : ¬(r == 0.0) = true) : 0.0 < r.abs := by
  rcases parts_of_finite hfin with ⟨s, hs⟩ | ⟨s, m, e, hm, hs⟩
  · exact absurd (beq_zero_iff.mpr ⟨s, hs⟩) hne
  · have hparts : parts r.abs = .finite .positive m e hm := by rw [parts_abs, hs]; rfl
    exact zero_lt_of_finite_positive hparts

section

variable [PowerLibrary]

/-- What is asked of the library power where `ε` is the division epsilon: the square of a positive
number that counts as zero counts as zero. -/
def SquaresVanish (ε : Float) : Prop :=
  ∀ r : Float, 0.0 < r → r < ε → (PowerLibrary.pow r 2.0).abs < ε

theorem pow_two_of_zero (hzero : (r == 0.0) = true) : pow r 2.0 = 0.0 := by
  have hle : ¬(2.0 : Float) < 0.0 := by decide
  have heven : ¬isOdd 2.0 = true := by decide
  rw [pow_of_beq_zero hzero (by decide) (by decide), zeroPow, if_neg hle, if_neg heven]

/-- The square of a number is that of its magnitude. -/
theorem pow_two_of_ne_zero (hfin : r.isFinite) (hne : ¬(r == 0.0) = true) :
    pow r 2.0 = positivePow r.abs 2.0 := by
  have hnan : ¬r.isNaN = true := Bool.eq_false_iff.mp (isNaN_of_finite hfin)
  have hinf : ¬r.isInf = true := Bool.eq_false_iff.mp (isInf_of_finite hfin)
  have htwo : ¬((2.0 : Float) == 0.0) = true := by decide
  have htwonan : ¬(2.0 : Float).isNaN = true := by decide
  have htwoinf : ¬(2.0 : Float).isInf = true := by decide
  rw [pow, if_neg htwo, if_neg hnan, if_neg htwonan, if_neg htwoinf, if_neg hinf, if_neg hne]
  by_cases hneg : r < 0.0
  · have hwhole : isWhole 2.0 = true := by decide
    have heven : ¬isOdd 2.0 = true := by decide
    rw [if_pos hneg, negativePow, if_pos hwhole, abs_of_negative hfin hneg]
    exact if_neg heven
  · have hsign : r ≠ -0.0 := by
      intro h
      rw [h] at hne
      exact hne negZero_beq_zero
    rw [if_neg hneg, abs_of_not_negative hfin hneg hsign]

/-- One is its own square, and the library power is not asked for it. -/
theorem abs_positivePow_two_lt (hsq : SquaresVanish ε) (hpos : 0.0 < r) (h : r < ε) :
    (positivePow r 2.0).abs < ε := by
  rw [positivePow]
  split_ifs with hone htwo
  · rw [eq_of_beq_one hone] at h
    exact h
  · exact absurd htwo (by decide)
  · exact hsq r hpos h

/-- **What counts as zero has a square that counts as zero.** -/
theorem abs_square_lt (hε : 0.0 < ε) (hsq : SquaresVanish ε) (h : r.abs < ε) :
    (pow r 2.0).abs < ε := by
  have hfin : r.isFinite := isFinite_of_abs_lt h
  by_cases hzero : (r == 0.0) = true
  · rw [pow_two_of_zero hzero]
    exact hε
  · rw [pow_two_of_ne_zero hfin hzero]
    exact abs_positivePow_two_lt hsq (zero_lt_abs hfin hzero) h

end

end Double

open Double

namespace Expr

section

variable [PowerLibrary] {ε x : Float} {t e d l r l' r' : Expr}

/-! ## Values of nodes -/

/-- The expression has a value. -/
def HasValueAt (ε x : Float) (t : Expr) : Prop :=
  ∃ v, t.evaluate ε x = .ok v

@[simp] theorem hasValueAt_const (c : Constant) : (const c).HasValueAt ε x :=
  ⟨c.value, rfl⟩

@[simp] theorem hasValueAt_var : var.HasValueAt ε x :=
  ⟨x, rfl⟩

@[simp] theorem hasValueAt_unary {op : UnaryOp} :
    (unary op e).HasValueAt ε x ↔ e.HasValueAt ε x := by
  simp [HasValueAt, evaluate_unary]

theorem hasValueAt_quotient (hε : 0.0 < ε) : (binary .div l r).HasValueAt ε x ↔
    l.HasValueAt ε x ∧ ∃ b, r.evaluate ε x = .ok b ∧ ¬b.abs < ε := by
  simp only [HasValueAt, evaluate_binary, operate, divide_eq_ok]
  constructor
  · rintro ⟨v, a, b, ha, hb, hlarge, -, -⟩
    exact ⟨⟨a, ha⟩, b, hb, hlarge⟩
  · rintro ⟨⟨a, ha⟩, b, hb, hlarge⟩
    exact ⟨a / b, a, b, ha, hb, hlarge, ne_zero_of_not_lt hε hlarge, rfl⟩

theorem hasValueAt_binary {op : BinaryOp} (hop : op ≠ .div) :
    (binary op l r).HasValueAt ε x ↔ l.HasValueAt ε x ∧ r.HasValueAt ε x := by
  have hoperate : ∀ a b, ∃ v, operate ε (binary op l r) op a b = .ok v := by
    intro a b
    cases op with
    | div => exact absurd rfl hop
    | _ => exact ⟨_, rfl⟩
  simp only [HasValueAt, evaluate_binary]
  constructor
  · rintro ⟨v, a, b, ha, hb, -⟩
    exact ⟨⟨a, ha⟩, b, hb⟩
  · rintro ⟨⟨a, ha⟩, b, hb⟩
    obtain ⟨v, hv⟩ := hoperate a b
    exact ⟨v, a, b, ha, hb, hv⟩

/-- A call that has a derivative has a value wherever its argument has one. -/
theorem hasValueAt_call {name : String} {base : Option ℤ}
    (hbase : HasNaturalBase (call name base e)) (hdiff : IsDifferentiable (call name base e))
    (he : e.HasValueAt ε x) : (call name base e).HasValueAt ε x := by
  obtain ⟨a, ha⟩ := he
  rcases settledAt_call (ε := ε) (x := x) (v := a) hbase with ⟨-, v, hv, -⟩ | ⟨err, hnode, -, -⟩
  · exact ⟨v, evaluate_call.mpr ⟨a, ha, hv⟩⟩
  · obtain ⟨b, q, rfl⟩ := hnode.divisionByZero hdiff
    cases hnode

/-! ## Values of derivatives -/

/-- The divisor of a quotient does not count as zero where its square does not. -/
theorem not_lt_of_square {w : Float} (hε : 0.0 < ε) (hsq : SquaresVanish ε)
    (h : (binary .pow r (number 2.0)).evaluate ε x = .ok w) (hw : ¬w.abs < ε) :
    ∃ b, r.evaluate ε x = .ok b ∧ ¬b.abs < ε := by
  obtain ⟨b, c, hb, hc, hpow⟩ := evaluate_binary.mp h
  cases hc
  cases hpow
  exact ⟨b, hb, fun hsmall => hw (abs_square_lt hε hsq hsmall)⟩

/-- An operand whose derivative is left out of the derivative of the operation is in it itself. -/
theorem hasValueAt_of_operationDerivative {op : BinaryOp} (hε : 0.0 < ε) (hsq : SquaresVanish ε)
    (hl : l'.HasValueAt ε x → l.HasValueAt ε x) (hr : r'.HasValueAt ε x → r.HasValueAt ε x)
    (h : (operationDerivative op l r l' r').HasValueAt ε x) :
    (binary op l r).HasValueAt ε x := by
  have hadd : BinaryOp.add ≠ .div := nofun
  have hsub : BinaryOp.sub ≠ .div := nofun
  have hmul : BinaryOp.mul ≠ .div := nofun
  cases op with
  | add =>
    obtain ⟨hl', hr'⟩ := (hasValueAt_binary hadd).mp h
    exact (hasValueAt_binary hadd).mpr ⟨hl hl', hr hr'⟩
  | sub =>
    obtain ⟨hl', hr'⟩ := (hasValueAt_binary hsub).mp h
    exact (hasValueAt_binary hsub).mpr ⟨hl hl', hr hr'⟩
  | mul =>
    obtain ⟨hleft, hright⟩ := (hasValueAt_binary hadd).mp h
    obtain ⟨-, hr⟩ := (hasValueAt_binary hmul).mp hleft
    obtain ⟨hl, -⟩ := (hasValueAt_binary hmul).mp hright
    exact (hasValueAt_binary hmul).mpr ⟨hl, hr⟩
  | div =>
    obtain ⟨hnumerator, w, hw, hlarge⟩ := (hasValueAt_quotient hε).mp h
    obtain ⟨-, hright⟩ := (hasValueAt_binary hsub).mp hnumerator
    obtain ⟨hl, -⟩ := (hasValueAt_binary hmul).mp hright
    exact (hasValueAt_quotient hε).mpr ⟨hl, not_lt_of_square hε hsq hw hlarge⟩
  | pow =>
    obtain ⟨hpow, -⟩ := (hasValueAt_binary hmul).mp h
    exact hpow

/-- **A derivative has no values where the expression has none.** If no logarithm has a base below
zero, then wherever the derivative of an expression has a value, so does the expression. -/
theorem hasValueAt_of_derivative (hε : 0.0 < ε) (hsq : SquaresVanish ε)
    (ht : t.Everywhere HasNaturalBase) (hd : t.derivative = .ok d) (h : d.HasValueAt ε x) :
    t.HasValueAt ε x := by
  have hdiff : t.Everywhere IsDifferentiable := exists_derivative_iff.mp ⟨d, hd⟩
  induction t generalizing d with
  | const c => exact hasValueAt_const c
  | var => exact hasValueAt_var
  | unary op e ih =>
    obtain ⟨-, he⟩ := everywhere_unary.mp ht
    obtain ⟨-, hdiffe⟩ := everywhere_unary.mp hdiff
    rw [hasValueAt_unary]
    cases op with
    | negate =>
      obtain ⟨e', he', heq⟩ := bind_eq_ok.mp hd
      cases heq
      exact ih he he' (hasValueAt_unary.mp h) hdiffe
    | keep => exact ih he hd h hdiffe
  | binary op l r ihl ihr =>
    obtain ⟨-, hl, hr⟩ := everywhere_binary.mp ht
    obtain ⟨-, hdiffl, hdiffr⟩ := everywhere_binary.mp hdiff
    obtain ⟨l', hl', hd⟩ := bind_eq_ok.mp hd
    obtain ⟨r', hr', heq⟩ := bind_eq_ok.mp hd
    cases heq
    exact hasValueAt_of_operationDerivative hε hsq (fun h' => ihl hl hl' h' hdiffl)
      (fun h' => ihr hr hr' h' hdiffr) h
  | call name base e ih =>
    obtain ⟨hbase, he⟩ := everywhere_call.mp ht
    obtain ⟨hnode, hdiffe⟩ := everywhere_call.mp hdiff
    obtain ⟨e', he', hd⟩ := bind_eq_ok.mp hd
    obtain ⟨outer, -, heq⟩ := bind_eq_ok.mp hd
    cases heq
    -- The chain rule multiplies by the derivative of the argument.
    have hmul : BinaryOp.mul ≠ .div := nofun
    obtain ⟨-, hinner⟩ := (hasValueAt_binary hmul).mp h
    exact hasValueAt_call hbase hnode (ih he he' hinner hdiffe)

end

/-! ## Squares as products -/

/-- The library power of `Float`, but for squares: they are products, put right wherever that of a
number that counts as zero might not count as zero. -/
def squaringPow (base exponent : Float) : Float :=
  if exponent == 2.0 then
    if base < 1e-10 ∧ ¬(base * base).abs < 1e-10 then 0.0 else base * base
  else base.pow exponent

/-- The library with that power. -/
abbrev squaringLibrary : PowerLibrary :=
  ⟨squaringPow⟩

theorem squaresVanish_squaringLibrary : @SquaresVanish squaringLibrary 1e-10 := by
  intro r hpos h
  have htwo : ((2.0 : Float) == 2.0) = true := by decide
  show (squaringPow r 2.0).abs < 1e-10
  rw [squaringPow, if_pos htwo]
  split_ifs with hlarge
  · decide
  · by_contra hsquare
    exact hlarge ⟨h, hsquare⟩

/-- The sum of a number and its reciprocal, at two. The derivative divides by a square there. -/
theorem hasValueAt_of_derivative_reciprocal :
    letI := squaringLibrary
    let t := binary .add var (binary .div (number 1.0) var)
    let d := binary .add (number 1.0) (binary .div
      (binary .sub (binary .mul (number 0.0) var) (binary .mul (number 1.0) (number 1.0)))
      (binary .pow var (number 2.0)))
    SquaresVanish 1e-10 ∧ t.Everywhere HasNaturalBase ∧ t.derivative = .ok d ∧
      d.evaluate 1e-10 2.0 = .ok 0.75 ∧ t.HasValueAt 1e-10 2.0 := by
  let := squaringLibrary
  intro t d
  have hnatural : t.Everywhere HasNaturalBase := by simp [t, HasNaturalBase, number]
  have hvalue : d.evaluate 1e-10 2.0 = .ok 0.75 := by
    refine eq_ok_of_toOption ?_
    decide +kernel
  exact ⟨squaresVanish_squaringLibrary, hnatural, rfl, hvalue,
    hasValueAt_of_derivative (by decide) squaresVanish_squaringLibrary hnatural rfl ⟨_, hvalue⟩⟩

end Expr

end SymCalc
