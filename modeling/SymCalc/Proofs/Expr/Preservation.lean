import SymCalc.Expr.Derivative
import SymCalc.Expr.Simplify
import SymCalc.Proofs.Decimal.Numeral
import SymCalc.Proofs.Expr.Nodes

/-!
# What differentiating and simplifying preserve

Both make few new nodes: operations, calls of the four functions of one argument, and finite
constants. Otherwise they put nodes of the expression over other operands. So a property of nodes
that has no quarrel with those is kept up.

* `IsPreserved` — what a property of nodes must fulfil for that.
* `everywhere_derivative` and `everywhere_simplify` — then it is kept up.
* `WellFormed.derivative` and `WellFormed.simplify` — that an expression can be written is such a
  property.
-/

namespace SymCalc.Expr

open Double

/-- The property holds of the nodes that differentiating and simplifying make, and of a call it
holds whatever the argument. -/
structure IsPreserved (P : Expr → Prop) : Prop where
  const (c : Constant) (h : c.value.isFinite) : P (const c)
  unary (op : UnaryOp) (e : Expr) : P (unary op e)
  binary (op : BinaryOp) (l r : Expr) : P (binary op l r)
  function (name : String) (h : name ∈ ["sin", "cos", "tan", "ln"]) (e : Expr) :
    P (call name none e)
  argument (name : String) (base : Option ℤ) (e e' : Expr) (h : P (call name base e)) :
    P (call name base e')

variable {P : Expr → Prop} {ε : Float} {t d e l r l' r' node s : Expr} {name : String}
  {base : Option ℤ}

theorem IsPreserved.number (hP : IsPreserved P) {x : Float} (h : x.isFinite) :
    (number x).Everywhere P :=
  everywhere_const.mpr (hP.const _ (Constant.isFinite_ofFloat h))

theorem IsPreserved.ln (hP : IsPreserved P) (he : e.Everywhere P) : (ln e).Everywhere P :=
  everywhere_call.mpr ⟨hP.function "ln" (by decide) e, he⟩

/-! ## Differentiation -/

theorem everywhere_operationDerivative (hP : IsPreserved P) (op : BinaryOp)
    (hl : l.Everywhere P) (hr : r.Everywhere P) (hl' : l'.Everywhere P) (hr' : r'.Everywhere P) :
    (operationDerivative op l r l' r').Everywhere P := by
  have hln : (ln l).Everywhere P := hP.ln hl
  have htwo : (number 2.0).Everywhere P := hP.number (by decide)
  cases op <;> simp [operationDerivative, hP.binary, hl, hr, hl', hr', hln, htwo]

theorem ofInt?_eq_ok {n : ℤ} (h : ofInt? n = .ok e) :
    e = number (Float.ofInt n) ∧ (Float.ofInt n).isFinite := by
  rw [ofInt?] at h
  split_ifs at h with hinf
  cases h
  exact ⟨rfl, isFinite_ofInt hinf⟩

theorem everywhere_outerDerivative (hP : IsPreserved P) (he : e.Everywhere P)
    (h : outerDerivative node name base e = .ok d) : d.Everywhere P := by
  have hone : (number 1.0).Everywhere P := hP.number (by decide)
  have htwo : (number 2.0).Everywhere P := hP.number (by decide)
  have hnegOne : (number (-1.0)).Everywhere P := hP.number (by decide)
  rw [outerDerivative] at h
  split_ifs at h
  · obtain ⟨b, -, h⟩ := bind_eq_ok.mp h
    obtain ⟨c, hc, h⟩ := bind_eq_ok.mp h
    cases h
    obtain ⟨rfl, hfin⟩ := ofInt?_eq_ok hc
    have hbase : (ln (number (Float.ofInt b))).Everywhere P := hP.ln (hP.number hfin)
    simp [hP.binary, hone, he, hbase]
  all_goals
    cases h
    simp [hP.binary, hP.function, hone, htwo, hnegOne, he]

/-- **Differentiating preserves the property.** -/
theorem everywhere_derivative (hP : IsPreserved P) (ht : t.Everywhere P)
    (h : t.derivative = .ok d) : d.Everywhere P := by
  induction t generalizing d with
  | const c =>
    cases h
    exact hP.number (by decide)
  | var =>
    cases h
    exact hP.number (by decide)
  | unary op e ih =>
    have he := (everywhere_unary.mp ht).2
    cases op with
    | negate =>
      obtain ⟨e', he', h⟩ := bind_eq_ok.mp h
      cases h
      exact everywhere_unary.mpr ⟨hP.unary _ _, ih he he'⟩
    | keep => exact ih he h
  | binary op l r ihl ihr =>
    obtain ⟨-, hl, hr⟩ := everywhere_binary.mp ht
    obtain ⟨l', hl', h⟩ := bind_eq_ok.mp h
    obtain ⟨r', hr', h⟩ := bind_eq_ok.mp h
    cases h
    exact everywhere_operationDerivative hP op hl hr (ihl hl hl') (ihr hr hr')
  | call name base e ih =>
    have he := (everywhere_call.mp ht).2
    obtain ⟨e', he', h⟩ := bind_eq_ok.mp h
    obtain ⟨outer, houter, h⟩ := bind_eq_ok.mp h
    cases h
    have houter := everywhere_outerDerivative hP he houter
    exact everywhere_binary.mpr ⟨hP.binary _ _ _, houter, ih he he'⟩

/-! ## Simplification -/

theorem everywhere_reduce (hP : IsPreserved P) (h : t.Everywhere P) : t.reduce.Everywhere P := by
  have hzero : (number 0.0).Everywhere P := hP.number (by decide)
  have hone : (number 1.0).Everywhere P := hP.number (by decide)
  fun_cases Expr.reduce t <;> simp_all

/-- Folding gives finite constants only. -/
theorem everywhere_fold? (hP : IsPreserved P) (h : fold? ε node = .ok (some s)) :
    s.Everywhere P := by
  rw [fold?] at h
  split at h
  · split_ifs at h with hfin
    · cases h
      exact hP.number hfin
    · cases h
  · cases h
  · cases h

theorem everywhere_simplifyNode (hP : IsPreserved P) (hnode : node.Everywhere P)
    (h : simplifyNode ε node = .ok s) : s.Everywhere P := by
  have hreduced : ∀ s, (.ok node.reduce : Except Error Expr) = .ok s → s.Everywhere P := by
    intro s hs
    cases hs
    exact everywhere_reduce hP hnode
  rw [simplifyNode] at h
  split_ifs at h
  · obtain ⟨c?, hc, h⟩ := bind_eq_ok.mp h
    cases c? with
    | none => exact hreduced s h
    | some c =>
      cases h
      exact everywhere_fold? hP hc
  · exact hreduced s h

/-- **Simplifying preserves the property.** -/
theorem everywhere_simplify (hP : IsPreserved P) (ht : t.Everywhere P)
    (h : t.simplify ε = .ok s) : s.Everywhere P := by
  induction t generalizing s with
  | const c =>
    cases h
    exact ht
  | var =>
    cases h
    exact ht
  | unary op e ih =>
    obtain ⟨e', he', h⟩ := bind_eq_ok.mp h
    have he := ih (everywhere_unary.mp ht).2 he'
    exact everywhere_simplifyNode hP (everywhere_unary.mpr ⟨hP.unary _ _, he⟩) h
  | binary op l r ihl ihr =>
    obtain ⟨-, hl, hr⟩ := everywhere_binary.mp ht
    obtain ⟨l', hl', h⟩ := bind_eq_ok.mp h
    obtain ⟨r', hr', h⟩ := bind_eq_ok.mp h
    have hnode := everywhere_binary.mpr ⟨hP.binary op l' r', ihl hl hl', ihr hr hr'⟩
    exact everywhere_simplifyNode hP hnode h
  | call name base e ih =>
    obtain ⟨hcall, he⟩ := everywhere_call.mp ht
    obtain ⟨e', he', h⟩ := bind_eq_ok.mp h
    have hnode := everywhere_call.mpr ⟨hP.argument name base e e' hcall, ih he he'⟩
    exact everywhere_simplifyNode hP hnode h

/-! ## Expressions that can be written -/

theorem properName_function (h : name ∈ ["sin", "cos", "tan", "ln"]) :
    ProperName name ∧ name ≠ "log" := by
  simp only [List.mem_cons, List.not_mem_nil, or_false] at h
  rcases h with rfl | rfl | rfl | rfl <;>
    exact ⟨⟨by decide, List.all_eq_true.mp (by decide), by decide⟩, by decide⟩

theorem isPreserved_hasFiniteValue : IsPreserved HasFiniteValue where
  const _ h := h
  unary _ _ := trivial
  binary _ _ _ := trivial
  function _ _ _ := trivial
  argument _ _ _ _ _ := trivial

theorem isPreserved_isProperCall : IsPreserved IsProperCall where
  const _ _ := trivial
  unary _ _ := trivial
  binary _ _ _ := trivial
  function _ h _ := properName_function h
  argument _ _ _ _ h := h

/-- **The derivative of an expression that can be written can be written.** -/
theorem WellFormed.derivative (ht : t.WellFormed) (h : t.derivative = .ok d) : d.WellFormed where
  finite := everywhere_derivative isPreserved_hasFiniteValue ht.finite h
  proper := everywhere_derivative isPreserved_isProperCall ht.proper h

/-- **The simplified form of an expression that can be written can be written.** -/
theorem WellFormed.simplify (ht : t.WellFormed) (h : t.simplify ε = .ok s) : s.WellFormed where
  finite := everywhere_simplify isPreserved_hasFiniteValue ht.finite h
  proper := everywhere_simplify isPreserved_isProperCall ht.proper h

end SymCalc.Expr
