import SymCalc.Proofs.Expr.DerivativeDomain
import SymCalc.Proofs.Expr.NormalForm
import SymCalc.Settings

/-!
# Where simplified expressions have values

**Theorem (`hasValueAt_simplify`).** Where an expression has a value, its simplified form has one,
unless a law of zero and one changes the value of a divisor there.

Whether a node over operands that have values has one itself depends on its divisor only, and for
calls not even on the operand. So the values of operands need not be followed, only that there are
some (`hasValueAt_simplifyNode`). Divisors are the exception: whether one counts as zero depends on
its value, and simplifying must not change that. It does not, where the laws hold
(`keeps_of_lawsHold`), and the laws matter nowhere else (`LawsHoldInDivisor`).

They can fail there (`losesValueAt_product_and_power`). Where `ln(x)` is infinite, `0*ln(x)` is not
a number, and division by it succeeds, but it becomes the constant `0`. And `-0` becomes `0`,
although the reciprocals of the two zeros are different infinities.
-/

namespace SymCalc.Expr

open Double

variable {ε x a v : Float} {t e l r s node : Expr} {op : BinaryOp} {name : String} {base : Option ℤ}

/-! ## Nodes over other operands -/

/-- The value of an argument does not decide whether a call has a value. -/
theorem exists_apply (h : apply node name base a = .ok v) (node' : Expr) (a' : Float) :
    ∃ w, apply node' name base a' = .ok w := by
  rcases apply_eq_ok.mp h with ⟨hlog, b, d, hbase, hb, hd, -⟩ | ⟨hlog, f, hf, -⟩
  · exact ⟨_, apply_eq_ok.mpr (Or.inl ⟨hlog, b, d, hbase, hb, hd, rfl⟩)⟩
  · exact ⟨_, apply_eq_ok.mpr (Or.inr ⟨hlog, f, hf, rfl⟩)⟩

/-- A call that has a value has one over any argument that does. -/
theorem hasValueAt_call_over (h : (call name base e).HasValueAt ε x) (hs : s.HasValueAt ε x) :
    (call name base s).HasValueAt ε x := by
  obtain ⟨v, hv⟩ := h
  obtain ⟨a, -, happ⟩ := evaluate_call.mp hv
  obtain ⟨a', ha'⟩ := hs
  obtain ⟨w, hw⟩ := exists_apply happ (call name base s) a'
  exact ⟨w, evaluate_call.mpr ⟨a', ha', hw⟩⟩

/-- A quotient that has a value has one over any numerator that does, and a divisor of the same
value. -/
theorem hasValueAt_quotient_over {b : Float} (h : (binary .div l r).HasValueAt ε x)
    (hb : r.evaluate ε x = .ok b) {l' r' : Expr} (hl' : l'.HasValueAt ε x)
    (hr' : r'.Yields ε x b) : (binary .div l' r').HasValueAt ε x := by
  obtain ⟨v, hv⟩ := h
  obtain ⟨a, b', -, hb', hdivide⟩ := evaluate_binary.mp hv
  cases hb.symm.trans hb'
  obtain ⟨hlarge, hne, -⟩ := divide_eq_ok.mp hdivide
  obtain ⟨a', ha'⟩ := hl'
  obtain ⟨b', hb', hagree⟩ := hr'
  obtain rfl := eq_of_agree hagree hne
  exact ⟨a' / b, evaluate_binary.mpr ⟨a', b, ha', hb', divide_eq_ok.mpr ⟨hlarge, hne, rfl⟩⟩⟩

/-! ## One node -/

theorem IsReduct.hasValueAt (h : node.IsReduct s)
    (hchildren : ∀ e ∈ node.children, e.HasValueAt ε x) : s.HasValueAt ε x := by
  cases h with
  | constant c => exact hasValueAt_const c
  | operand h => exact hchildren s h
  | signed h => exact hasValueAt_unary.mp (hchildren _ h)

/-- The laws introduce no failure. -/
theorem hasValueAt_reduce (hchildren : ∀ e ∈ node.children, e.HasValueAt ε x)
    (h : node.HasValueAt ε x) : node.reduce.HasValueAt ε x := by
  by_cases hirreducible : node.IsIrreducible
  · rw [reduce_of_isIrreducible hirreducible]
    exact h
  · exact (isReduct_reduce hirreducible).hasValueAt hchildren

/-- **One step**: a node that has a value, over operands that do, keeps having one. -/
theorem hasValueAt_simplifyNode (hne : node.children ≠ [])
    (hchildren : ∀ e ∈ node.children, e.HasValueAt ε x) (h : node.HasValueAt ε x) :
    ∃ s, simplifyNode ε node = .ok s ∧ s.HasValueAt ε x := by
  obtain ⟨v, hv⟩ := h
  rcases simplifyNode_of_hasValue hne hv with ⟨-, hs⟩ | hs
  · exact ⟨number v, hs, hasValueAt_const _⟩
  · exact ⟨node.reduce, hs, hasValueAt_reduce hchildren ⟨v, hv⟩⟩

/-! ## Whole expressions -/

/-- If it is a quotient, the laws of zero and one hold in its divisor. -/
def LawsHoldInDivisor (ε x : Float) : Expr → Prop
  | binary .div _ r => r.Everywhere (LawsHoldAt ε x)
  | _ => True

/-- The simplified expression has a value. -/
def KeepsValueAt (ε x : Float) (t : Expr) : Prop :=
  ∃ s, t.simplify ε = .ok s ∧ s.HasValueAt ε x

theorem keepsValueAt_unary {op : UnaryOp} (he : e.KeepsValueAt ε x) :
    (unary op e).KeepsValueAt ε x := by
  obtain ⟨s, hs, hvalue⟩ := he
  rw [KeepsValueAt, simplify, hs]
  exact hasValueAt_simplifyNode (by simp [children]) (by simpa [children] using hvalue)
    (hasValueAt_unary.mpr hvalue)

theorem keepsValueAt_binary (hl : l.KeepsValueAt ε x) (hr : r.KeepsValueAt ε x)
    (hnode : LawsHoldInDivisor ε x (binary op l r)) (h : (binary op l r).HasValueAt ε x) :
    (binary op l r).KeepsValueAt ε x := by
  obtain ⟨sl, hsl, hvaluel⟩ := hl
  obtain ⟨sr, hsr, hvaluer⟩ := hr
  have hvalue : (binary op sl sr).HasValueAt ε x := by
    by_cases hop : op = .div
    · subst hop
      obtain ⟨v, hv⟩ := h
      obtain ⟨a, b, -, hb, -⟩ := evaluate_binary.mp hv
      obtain ⟨s, hs, hyields⟩ := keeps_of_lawsHold hnode hb
      cases hsr.symm.trans hs
      exact hasValueAt_quotient_over ⟨v, hv⟩ hb hvaluel hyields
    · exact (hasValueAt_binary hop).mpr ⟨hvaluel, hvaluer⟩
  rw [KeepsValueAt, simplify, hsl, hsr]
  exact hasValueAt_simplifyNode (by simp [children]) (by simpa [children] using ⟨hvaluel, hvaluer⟩)
    hvalue

theorem keepsValueAt_call (he : e.KeepsValueAt ε x) (h : (call name base e).HasValueAt ε x) :
    (call name base e).KeepsValueAt ε x := by
  obtain ⟨s, hs, hvalue⟩ := he
  rw [KeepsValueAt, simplify, hs]
  exact hasValueAt_simplifyNode (by simp [children]) (by simpa [children] using hvalue)
    (hasValueAt_call_over h hvalue)

/-- **Simplification introduces no failure** where the laws of zero and one hold in all divisors:
where the expression has a value, finite or not, it can be simplified and the simplified form has a
value. -/
theorem hasValueAt_simplify (hdivisors : t.Everywhere (LawsHoldInDivisor ε x))
    (h : t.HasValueAt ε x) : ∃ s, t.simplify ε = .ok s ∧ s.HasValueAt ε x := by
  show t.KeepsValueAt ε x
  induction t with
  | const c => exact ⟨const c, rfl, h⟩
  | var => exact ⟨var, rfl, h⟩
  | unary op e ih =>
    obtain ⟨-, he⟩ := everywhere_unary.mp hdivisors
    exact keepsValueAt_unary (ih he (hasValueAt_unary.mp h))
  | binary op l r ihl ihr =>
    obtain ⟨hnode, hl, hr⟩ := everywhere_binary.mp hdivisors
    obtain ⟨v, hv⟩ := h
    obtain ⟨a, b, ha, hb, -⟩ := evaluate_binary.mp hv
    exact keepsValueAt_binary (ihl hl ⟨a, ha⟩) (ihr hr ⟨b, hb⟩) hnode ⟨v, hv⟩
  | call name base e ih =>
    obtain ⟨-, he⟩ := everywhere_call.mp hdivisors
    obtain ⟨v, hv⟩ := h
    obtain ⟨a, ha, -⟩ := evaluate_call.mp hv
    exact keepsValueAt_call (ih he ⟨a, ha⟩) ⟨v, hv⟩

/-- A product with zero that is not a number, before a quotient by an infinite product. -/
theorem hasValueAt_simplify_infinite :
    let t := binary .sub (binary .mul (number 0.0) var)
      (binary .div (number 1.0) (binary .mul (number 2.0) var))
    ∃ s, t.simplify 1e-10 = .ok s ∧ s.HasValueAt 1e-10 infinity := by
  intro t
  have hdivisors : t.Everywhere (LawsHoldInDivisor 1e-10 infinity) := by
    have htwo : Constant.ofFloat 2.0 ≠ Constant.ofFloat 0.0 := by decide
    simp [t, LawsHoldInDivisor, LawsHoldAt, simplify, number, htwo]
  exact hasValueAt_simplify hdivisors ⟨_, rfl⟩

/-! ## Where the laws fail -/

/-- The expression that is read from the text has a value at `x`, but its simplified form has none,
as the settings are when nothing is set. -/
def LosesValueAt (text : String) (x : Float) : Prop :=
  ∃ t s, Expr.parse Settings.standard.nestingLimit text = .ok t ∧
    t.HasValueAt Settings.standard.epsilon x ∧ t.simplify Settings.standard.epsilon = .ok s ∧
    ¬s.HasValueAt Settings.standard.epsilon x

/-- Whether the value is lost can be computed. -/
theorem losesValueAt_of_computed {text : String} {x : Float}
    (h : (do
      let t ← Expr.parse Settings.standard.nestingLimit text
      let _ ← t.evaluate Settings.standard.epsilon x
      let s ← t.simplify Settings.standard.epsilon
      return (s.evaluate Settings.standard.epsilon x).toOption).toOption = some none) :
    LosesValueAt text x := by
  obtain ⟨t, ht, h⟩ := bind_eq_ok.mp (eq_ok_of_toOption h)
  obtain ⟨v, hv, h⟩ := bind_eq_ok.mp h
  obtain ⟨s, hs, h⟩ := bind_eq_ok.mp h
  have hnone : (s.evaluate Settings.standard.epsilon x).toOption = none := Except.ok.inj h
  refine ⟨t, s, ht, ⟨v, hv⟩, hs, ?_⟩
  rintro ⟨w, hw⟩
  rw [hw] at hnone
  cases hnone

theorem losesValueAt_product_and_power :
    LosesValueAt "1/(0*ln(x))" 0.0 ∧ LosesValueAt "1/2^-((-0)^-1)" 0.0 :=
  ⟨losesValueAt_of_computed (by decide +kernel), losesValueAt_of_computed (by decide +kernel)⟩

end SymCalc.Expr
