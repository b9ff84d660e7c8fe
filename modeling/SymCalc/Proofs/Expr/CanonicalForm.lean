import SymCalc.Proofs.Expr.RoundTrip
import SymCalc.Proofs.Expr.SimplifiedValue
import SymCalc.Proofs.Expr.Preservation
import SymCalc.Proofs.Outcome

/-!
# The canonical form is as good as the expression

What is read from the text of an expression is its canonical form: a sign stands before the
magnitude of each negative constant. The two are different expressions, but nothing that is done
with them tells them apart.

* `outcome_evaluate_canonical` — they have the same values and fail for the same kind of reason.
* `simplify_canonical` — they have the same simplified form.
* `outcome_derivative_canonical` — their derivatives have the same simplified form.

The last one does not follow from the others: the derivative of a constant is zero, and that of a
sign before a constant is a sign before zero. Both simplify to zero. So expressions are followed
that need not be the same, but simplify to the same; all nodes respect that
(`simplify_unary_congr` and its companions).
-/

namespace SymCalc.Expr

open Double

variable {ε x v a b : Float} {e e' l r l' r' t u node node' : Expr} {op : BinaryOp} {name : String}
  {base : Option ℤ}

/-! ## Texts -/

/-- **Equal texts have equal canonical forms.** -/
theorem canonical_eq_of_render_eq (ht : t.WellFormed) (hu : u.WellFormed)
    (h : t.render = u.render) : t.canonical = u.canonical := by
  have hderives := derives_canonical ht
  rw [h] at hderives
  exact hderives.unique (derives_canonical hu)

/-- The text of an expression is read as its canonical form, unless it nests too deep. -/
theorem parse_of_nesting_le {L : ℕ} (ht : t.WellFormed) (hL : nesting t.render.toList ≤ L) :
    Expr.parse L t.render = .ok t.canonical := by
  have h := derives_canonical ht
  rw [Expr.parse, withoutBlanks_of_derives h]
  exact parseChars_of_derives h hL

/-- The bases of logarithms are the same in both. -/
theorem isWritable_canonical (t : Expr) : t.canonical.isWritable = t.isWritable := by
  induction t with
  | const c =>
    rw [canonical]
    split_ifs <;> rfl
  | var => rfl
  | unary op e ih => exact ih
  | binary op l r ihl ihr => rw [canonical, isWritable_binary, isWritable_binary, ihl, ihr]
  | call name base e ih =>
    rw [canonical, Bool.eq_iff_iff, isWritable_call, isWritable_call, ih]
    rfl

/-! ## Values -/

section

variable (hnode : node.isWritable = node'.isWritable)
include hnode

theorem outcome_operate :
    outcome id (operate ε node op a b) = outcome id (operate ε node' op a b) := by
  cases op with
  | div =>
    rw [operate, operate, divide, divide]
    split_ifs
    · exact congrArg Except.error (EvaluationError.kind_raised rfl hnode)
    · rfl
    · rfl
  | _ => rfl

theorem outcome_checkedBase :
    outcome id (checkedBase node base) = outcome id (checkedBase node' base) := by
  cases base with
  | none => exact congrArg Except.error (EvaluationError.kind_raised rfl hnode)
  | some b =>
    rw [checkedBase, checkedBase]
    split_ifs
    · exact congrArg Except.error (EvaluationError.kind_raised rfl hnode)
    · rfl

theorem outcome_apply :
    outcome id (apply node name base v) = outcome id (apply node' name base v) := by
  rw [apply, apply]
  split_ifs
  · refine outcome_bind (outcome_checkedBase hnode) ?_
    rintro b _ rfl
    rfl
  · rfl

end

/-- A sign before the magnitude of a negative constant gives the constant back. -/
theorem negate_magnitude {c : Constant} (hneg : c.value < 0.0) :
    UnaryOp.negate.apply (Constant.ofFloat (-c.value)).value = c.value := by
  have hmagnitude : (Constant.ofFloat (-c.value)).value = -c.value := by
    rw [Constant.ofFloat, dif_neg (neg_ne_zero hneg)]
  rw [hmagnitude]
  exact neg_neg c.value

/-- **The canonical form has the same values** and fails for the same kind of reason. -/
theorem outcome_evaluate_canonical (ε x : Float) (t : Expr) :
    outcome id (t.canonical.evaluate ε x) = outcome id (t.evaluate ε x) := by
  induction t with
  | const c =>
    rw [canonical]
    split_ifs with hneg
    · exact congrArg Except.ok (negate_magnitude hneg)
    · rfl
  | var => rfl
  | unary op e ih =>
    refine outcome_bind ih ?_
    rintro v _ rfl
    rfl
  | binary op l r ihl ihr =>
    refine outcome_bind ihl ?_
    rintro a _ rfl
    refine outcome_bind ihr ?_
    rintro b _ rfl
    exact outcome_operate (isWritable_canonical (binary op l r))
  | call name base e ih =>
    refine outcome_bind ih ?_
    rintro v _ rfl
    exact outcome_apply (isWritable_canonical (call name base e))

/-! ## Simplified forms -/

theorem simplify_unary_congr (op : UnaryOp) (h : e.simplify ε = e'.simplify ε) :
    (unary op e).simplify ε = (unary op e').simplify ε := by
  rw [simplify, simplify, h]

theorem simplify_binary_congr (op : BinaryOp) (hl : l.simplify ε = l'.simplify ε)
    (hr : r.simplify ε = r'.simplify ε) :
    (binary op l r).simplify ε = (binary op l' r').simplify ε := by
  rw [simplify, simplify, hl, hr]

theorem simplify_call_congr (name : String) (base : Option ℤ) (h : e.simplify ε = e'.simplify ε) :
    (call name base e).simplify ε = (call name base e').simplify ε := by
  rw [simplify, simplify, h]

/-- A sign before a constant is folded. -/
theorem simplify_signed_constant {op : UnaryOp} {c : Constant} (h : (op.apply c.value).isFinite) :
    (unary op (const c)).simplify ε = .ok (number (op.apply c.value)) := by
  have hconst : (unary op (const c)).children.all isConst = true := rfl
  have hvalue : (unary op (const c)).evaluate ε 0.0 = .ok (op.apply c.value) := rfl
  exact simplifyNode_of_value hconst hvalue h

/-- **The canonical form simplifies to the same.** -/
theorem simplify_canonical (ht : t.Everywhere HasFiniteValue) :
    t.canonical.simplify ε = t.simplify ε := by
  induction t with
  | const c =>
    have hfin : c.value.isFinite := everywhere_const.mp ht
    rw [canonical]
    split_ifs with hneg
    · -- the sign is folded into the magnitude, which gives the constant back
      have hvalue := negate_magnitude hneg
      rw [number, simplify_signed_constant (by rwa [hvalue]), hvalue, number,
        Constant.ofFloat_value]
      rfl
    · rfl
  | var => rfl
  | unary op e ih => exact simplify_unary_congr op (ih (everywhere_unary.mp ht).2)
  | binary op l r ihl ihr =>
    obtain ⟨-, hl, hr⟩ := everywhere_binary.mp ht
    exact simplify_binary_congr op (ihl hl) (ihr hr)
  | call name base e ih => exact simplify_call_congr name base (ih (everywhere_call.mp ht).2)

/-! ## Derivatives -/

theorem simplify_operationDerivative_congr {dl dr dl' dr' : Expr} (op : BinaryOp)
    (hl : l.simplify ε = l'.simplify ε) (hr : r.simplify ε = r'.simplify ε)
    (hdl : dl.simplify ε = dl'.simplify ε) (hdr : dr.simplify ε = dr'.simplify ε) :
    (operationDerivative op l r dl dr).simplify ε =
      (operationDerivative op l' r' dl' dr').simplify ε := by
  cases op <;> simp only [operationDerivative, ln, simplify, hl, hr, hdl, hdr]

theorem outcome_outerDerivative (hnode : node.isWritable = node'.isWritable)
    (h : e.simplify ε = e'.simplify ε) :
    outcome (simplify ε) (outerDerivative node name base e) =
      outcome (simplify ε) (outerDerivative node' name base e') := by
  have hcall (name : String) : (call name none e).simplify ε = (call name none e').simplify ε :=
    simplify_call_congr name none h
  rw [outerDerivative, outerDerivative]
  split_ifs
  · refine outcome_bind (outcome_checkedBase hnode) ?_
    rintro b _ rfl
    have hbase : outcome id (ofInt? b) = outcome id (ofInt? b) := rfl
    refine outcome_bind hbase ?_
    rintro c _ rfl
    exact congrArg Except.ok (simplify_binary_congr _ rfl (simplify_binary_congr _ h rfl))
  · exact congrArg Except.ok (hcall "cos")
  · exact congrArg Except.ok (simplify_binary_congr _ rfl (hcall "sin"))
  · exact congrArg Except.ok
      (simplify_binary_congr _ rfl (simplify_binary_congr _ (hcall "tan") rfl))
  · exact congrArg Except.ok (simplify_binary_congr _ rfl h)
  · rfl

/-- **The derivative of the canonical form simplifies to the same**, or fails for the same kind of
reason. -/
theorem outcome_derivative_canonical (ht : t.Everywhere HasFiniteValue) :
    outcome (simplify ε) t.canonical.derivative = outcome (simplify ε) t.derivative := by
  induction t with
  | const c =>
    rw [canonical]
    split_ifs with hneg
    · -- the derivatives differ here: a sign before zero, and zero
      have hzero : (unary .negate (number 0.0)).simplify ε = .ok (number 0.0) :=
        simplify_signed_constant (by decide)
      exact congrArg Except.ok hzero
    · rfl
  | var => rfl
  | unary op e ih =>
    have ih := ih (everywhere_unary.mp ht).2
    cases op with
    | negate =>
      refine outcome_bind ih ?_
      intro d d' h
      exact congrArg Except.ok (simplify_unary_congr .negate h)
    | keep => exact ih
  | binary op l r ihl ihr =>
    obtain ⟨-, hl, hr⟩ := everywhere_binary.mp ht
    refine outcome_bind (ihl hl) ?_
    intro dl dl' hdl
    refine outcome_bind (ihr hr) ?_
    intro dr dr' hdr
    have hl' := simplify_canonical (ε := ε) hl
    have hr' := simplify_canonical (ε := ε) hr
    exact congrArg Except.ok (simplify_operationDerivative_congr op hl' hr' hdl hdr)
  | call name base e ih =>
    have he := (everywhere_call.mp ht).2
    refine outcome_bind (ih he) ?_
    intro d d' hd
    have hcanonical : e.canonical.simplify ε = e.simplify ε := simplify_canonical he
    have hnode := isWritable_canonical (call name base e)
    refine outcome_bind (outcome_outerDerivative hnode hcanonical) ?_
    intro outer outer' houter
    exact congrArg Except.ok (simplify_binary_congr .mul houter hd)

/-- The canonical form has a derivative if the expression has one, and both simplify alike. -/
theorem exists_derivative_canonical {d : Expr} (ht : t.Everywhere HasFiniteValue)
    (h : t.derivative = .ok d) :
    ∃ d', t.canonical.derivative = .ok d' ∧ d'.simplify ε = d.simplify ε := by
  have hsame := outcome_derivative_canonical (ε := ε) ht
  rw [h] at hsame
  cases hd' : t.canonical.derivative with
  | ok d' =>
    rw [hd'] at hsame
    exact ⟨d', rfl, Except.ok.inj hsame⟩
  | error err =>
    rw [hd'] at hsame
    cases hsame

end SymCalc.Expr
