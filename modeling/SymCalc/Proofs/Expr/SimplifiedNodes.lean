import SymCalc.Proofs.Expr.SimplifiedValue

/-!
# Simplified forms of nodes

What a node simplifies to, where the simplified forms of its operands are known.

* `simplify_unary_of_value`, `simplify_binary_of_value`, `simplify_call_of_value` — over constants,
  its value, if that is finite.
* `simplify_binary` — over an operand that is no constant, what the laws make of it.
* `simplify_zero_mul` and `simplify_mul_zero` — zero for a product with zero, whatever the other
  factor is. A product that is folded is finite, and then so is the other factor.

**Theorem (`simplify_of_ne_var`).** An expression without the variable, all of whose values are
finite, simplifies to its value.
-/

namespace SymCalc.Expr

open Double

variable {ε x a b c v w : Float} {t e l r l' r' node : Expr} {op : BinaryOp}

/-! ## Zero and one -/

theorem isNumber_number_zero (c : Float) : (number c).isNumber 0.0 = (c == 0.0) := by
  show ((Constant.ofFloat c).value == 0.0) = _
  rw [Constant.ofFloat]
  split_ifs with h
  · rw [h]
    rfl
  · rfl

theorem isNumber_number_one (c : Float) : (number c).isNumber 1.0 = (c == 1.0) := by
  show ((Constant.ofFloat c).value == 1.0) = _
  rw [Constant.ofFloat]
  split_ifs with h
  · rcases eq_of_beq_zero h with rfl | rfl <;> decide
  · rfl

theorem isNumber_of_isConst_eq_false (h : e.isConst = false) (y : Float) :
    e.isNumber y = false := by
  cases e with
  | const c => cases h
  | _ => rfl

theorem number_eq_of_agree (h : Agree a b) : number a = number b :=
  congrArg const (Constant.ofFloat_eq_iff.mpr h)

theorem number_eq_zero (h : (a == 0.0) = true) : number a = number 0.0 :=
  number_eq_of_agree (Or.inr ⟨h, zero_beq_zero⟩)

/-! ## Nodes over constants -/

theorem simplify_number (c : Float) : (number c).simplify ε = .ok (number c) := rfl

theorem simplify_var : var.simplify ε = .ok var := rfl

/-- Numbers become constants without the sign of zero, which does not matter for the value. -/
theorem simplifyNode_of_agree (hconst : node.children.all isConst)
    (h : node.evaluate ε 0.0 = .ok w) (hvw : Agree v w) (hv : v.isFinite) :
    simplifyNode ε node = .ok (number v) := by
  rw [number_eq_of_agree hvw]
  exact simplifyNode_of_value hconst h (isFinite_of_agree hvw hv)

theorem simplify_unary_of_value {op : UnaryOp} (he : e.simplify ε = .ok (number a))
    (h : (op.apply a).isFinite) : (unary op e).simplify ε = .ok (number (op.apply a)) := by
  have hagree := Constant.agree_ofFloat a
  have hnode : Agree (op.apply a) (op.apply (Constant.ofFloat a).value) := by
    cases op with
    | negate => exact hagree.neg
    | keep => exact hagree
  have hvalue : (unary op (number a)).evaluate ε 0.0 = .ok (op.apply (Constant.ofFloat a).value) :=
    evaluate_unary.mpr ⟨_, rfl, rfl⟩
  rw [simplify, he]
  exact simplifyNode_of_agree rfl hvalue hnode h

theorem simplify_binary_of_value (hl : l.simplify ε = .ok (number a))
    (hr : r.simplify ε = .ok (number b)) (hb : b.isFinite)
    (h : operate ε (binary op l r) op a b = .ok v) (hv : v.isFinite) :
    (binary op l r).simplify ε = .ok (number v) := by
  have hsign : op = .pow → (a == 0.0) = true → b < 0.0 → isOdd b →
      (Constant.ofFloat a).value = a := by
    rintro rfl hzero hneg -
    cases h
    exact absurd hneg (nonneg_of_isFinite_pow hzero hb hv)
  obtain ⟨w, hw, hagree⟩ := operate_agree h (Constant.agree_ofFloat a) (Constant.agree_ofFloat b)
    hsign (binary op (number a) (number b))
  have hvalue : (binary op (number a) (number b)).evaluate ε 0.0 = .ok w :=
    evaluate_binary.mpr ⟨_, _, rfl, rfl, hw⟩
  rw [simplify, hl, hr]
  exact simplifyNode_of_agree rfl hvalue hagree hv

theorem simplify_call_of_value {name : String} {base : Option ℤ}
    (he : e.simplify ε = .ok (number a)) (h : apply (call name base e) name base a = .ok v)
    (hv : v.isFinite) :
    (call name base e).simplify ε = .ok (number v) := by
  obtain ⟨w, hw, hagree⟩ := apply_agree h (Constant.agree_ofFloat a) (call name base (number a))
  have hvalue : (call name base (number a)).evaluate ε 0.0 = .ok w :=
    evaluate_call.mpr ⟨_, rfl, hw⟩
  rw [simplify, he]
  exact simplifyNode_of_agree rfl hvalue hagree hv

/-- A product of constants with one. -/
theorem simplify_mul_one (hc : c.isFinite) :
    (binary .mul (number c) (number 1.0)).simplify ε = .ok (number c) :=
  simplify_binary_of_value (simplify_number c) (simplify_number 1.0) rfl
    (congrArg Except.ok (mul_one c)) hc

/-- **An expression without the variable simplifies to its value.** -/
theorem simplify_of_ne_var (hvar : t.Everywhere (· ≠ var))
    (hfin : t.Everywhere (HasFiniteValueAt ε x)) (hv : t.evaluate ε x = .ok v) :
    t.simplify ε = .ok (number v) := by
  have hvfin : v.isFinite := hfin.root.isFinite hv
  induction t generalizing v with
  | const c =>
    cases hv
    rw [number, Constant.ofFloat_value]
    rfl
  | var => exact absurd rfl (everywhere_var.mp hvar)
  | unary op e ih =>
    obtain ⟨-, hvare⟩ := everywhere_unary.mp hvar
    obtain ⟨-, hfine⟩ := everywhere_unary.mp hfin
    obtain ⟨a, ha, rfl⟩ := evaluate_unary.mp hv
    have he := ih hvare hfine ha (hfine.root.isFinite ha)
    exact simplify_unary_of_value he hvfin
  | binary op l r ihl ihr =>
    obtain ⟨-, hvarl, hvarr⟩ := everywhere_binary.mp hvar
    obtain ⟨-, hfinl, hfinr⟩ := everywhere_binary.mp hfin
    obtain ⟨a, b, ha, hb, hop⟩ := evaluate_binary.mp hv
    have hbfin : b.isFinite := hfinr.root.isFinite hb
    have hl := ihl hvarl hfinl ha (hfinl.root.isFinite ha)
    have hr := ihr hvarr hfinr hb hbfin
    exact simplify_binary_of_value hl hr hbfin hop hvfin
  | call name base e ih =>
    obtain ⟨-, hvare⟩ := everywhere_call.mp hvar
    obtain ⟨-, hfine⟩ := everywhere_call.mp hfin
    obtain ⟨a, ha, happ⟩ := evaluate_call.mp hv
    have he := ih hvare hfine ha (hfine.root.isFinite ha)
    exact simplify_call_of_value he happ hvfin

/-! ## Nodes under the laws -/

/-- An operation with an operand that is not a constant is not folded. -/
theorem simplify_binary (hl : l.simplify ε = .ok l') (hr : r.simplify ε = .ok r')
    (h : l'.isConst = false ∨ r'.isConst = false) :
    (binary op l r).simplify ε = .ok (binary op l' r').reduce := by
  have hconst : ¬(binary op l' r').children.all isConst = true := by
    rcases h with h | h <;> simp [children, h]
  rw [simplify, hl, hr]
  exact if_neg hconst

theorem simplify_add (hl : l.simplify ε = .ok l') (hr : r.simplify ε = .ok r')
    (hl' : l'.isConst = false) (hr' : r'.isConst = false) :
    (binary .add l r).simplify ε = .ok (binary .add l' r') := by
  rw [simplify_binary hl hr (Or.inl hl'), reduce]
  simp only [isNumber_of_isConst_eq_false hl', isNumber_of_isConst_eq_false hr',
    Bool.false_eq_true, if_false]

theorem simplify_zero_add (hl : l.simplify ε = .ok (number 0.0)) (hr : r.simplify ε = .ok r')
    (hr' : r'.isConst = false) : (binary .add l r).simplify ε = .ok r' := by
  rw [simplify_binary hl hr (Or.inr hr'), reduce]
  rfl

theorem exists_value_of_isConst (h : e.isConst) : ∃ v, e.evaluate ε x = .ok v := by
  cases e with
  | const c => exact ⟨c.value, rfl⟩
  | _ => cases h

theorem simplifyNode_mul_zero (h : l = number 0.0 ∨ r = number 0.0) :
    simplifyNode ε (binary .mul l r) = .ok (number 0.0) := by
  have hreduce : (binary .mul l r).reduce = number 0.0 := by
    rw [reduce]
    exact if_pos (by simpa using h)
  by_cases hconst : (binary .mul l r).children.all isConst
  · simp only [children, List.all_cons, List.all_nil, Bool.and_true, Bool.and_eq_true] at hconst
    obtain ⟨a, ha⟩ : ∃ a, l.evaluate ε 0.0 = .ok a := exists_value_of_isConst hconst.1
    obtain ⟨b, hb⟩ : ∃ b, r.evaluate ε 0.0 = .ok b := exists_value_of_isConst hconst.2
    have hvalue : (binary .mul l r).evaluate ε 0.0 = .ok (a * b) :=
      evaluate_binary.mpr ⟨a, b, ha, hb, rfl⟩
    have hzero : (a == 0.0) = true ∨ (b == 0.0) = true :=
      h.imp (fun h => value_of_isNumber (isNumber_zero_iff.mpr h) ha)
        fun h => value_of_isNumber (isNumber_zero_iff.mpr h) hb
    rcases simplifyNode_of_hasValue (by simp [children]) hvalue with ⟨hfin, hs⟩ | hs
    · rw [hs, number_eq_zero (mul_beq_zero hzero hfin)]
    · rw [hs, hreduce]
  · rw [simplifyNode, if_neg hconst, hreduce]
    rfl

/-- **A product with zero simplifies to zero**, whatever the other factor simplifies to. -/
theorem simplify_zero_mul (hl : l.simplify ε = .ok (number 0.0)) (hr : r.simplify ε = .ok r') :
    (binary .mul l r).simplify ε = .ok (number 0.0) := by
  rw [simplify, hl, hr]
  exact simplifyNode_mul_zero (Or.inl rfl)

theorem simplify_mul_zero (hl : l.simplify ε = .ok l') (hr : r.simplify ε = .ok (number 0.0)) :
    (binary .mul l r).simplify ε = .ok (number 0.0) := by
  rw [simplify, hl, hr]
  exact simplifyNode_mul_zero (Or.inr rfl)

end SymCalc.Expr
