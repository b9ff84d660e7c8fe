import SymCalc.Proofs.Double.LeadingDigit
import SymCalc.Proofs.Expr.LogarithmBases
import SymCalc.Proofs.Expr.Transformation

/-!
# Which expressions have derivatives

**Theorem (`differentiable_transform`).** An expression has a derivative exactly if each of its
calls does (`IsDifferentiable`): it is one of the four functions of one argument, or a logarithm
with a base that is neither zero nor one nor beyond the doubles. This is decided once: whatever is
made of the expression by differentiating and simplifying, in any order and any number of times,
has a derivative again, and evaluating it fails only because of a divisor that counts as zero.

The calls of a derivative are calls of the expression over other arguments, and new calls of the
four functions. So `IsDifferentiable` is a property of nodes that both steps preserve
(`isPreserved_isDifferentiable`). Where it holds, the only nodes that offend are quotients
(`Offends.divisionByZero`), and a base within the doubles is short enough for every message
(`isWritable_of_differentiable`).
-/

namespace SymCalc

namespace Expr

variable {ε x : Float} {t e d node : Expr} {name : String} {base : Option ℤ}

/-! ## Calls that have a derivative -/

/-- If it is a call, it has a derivative. -/
def IsDifferentiable : Expr → Prop
  | call name base _ =>
    name ∈ ["sin", "cos", "tan", "ln"] ∨
      name = "log" ∧ ∃ b, base = some b ∧ b ≠ 0 ∧ b ≠ 1 ∧ (Float.ofInt b).isFinite
  | _ => True

theorem exists_ofInt?_iff {b : ℤ} : (∃ c, ofInt? b = .ok c) ↔ (Float.ofInt b).isFinite := by
  rw [ofInt?]
  by_cases hinf : (Float.ofInt b).isInf
  · rw [if_pos hinf]
    have hfin : ¬(Float.ofInt b).isFinite := by
      intro hfin
      rw [Double.isInf_of_finite hfin] at hinf
      cases hinf
    simp [hfin]
  · rw [if_neg hinf]
    simp [isFinite_ofInt hinf]

theorem exists_outerDerivative_iff (node : Expr) :
    (∃ outer, outerDerivative node name base e = .ok outer) ↔
      IsDifferentiable (call name base e) := by
  rw [outerDerivative, IsDifferentiable]
  split_ifs with hlog hsin hcos htan hln
  · subst hlog
    have hname : "log" ∉ ["sin", "cos", "tan", "ln"] := by decide
    simp only [bind_eq_ok, hname, checkedBase_eq_ok, ← exists_ofInt?_iff, false_or, true_and]
    constructor
    · rintro ⟨outer, b, ⟨rfl, hb⟩, c, hc, -⟩
      exact ⟨b, rfl, fun h => hb (Or.inl h), fun h => hb (Or.inr h), c, hc⟩
    · rintro ⟨b, rfl, hzero, hone, c, hc⟩
      exact ⟨_, b, ⟨rfl, by simp [hzero, hone]⟩, c, hc, rfl⟩
  · simp [hsin]
  · simp [hcos]
  · simp [htan]
  · simp [hln]
  · simp [hlog, hsin, hcos, htan, hln]

/-- **An expression has a derivative exactly if each of its calls does.** -/
theorem exists_derivative_iff : (∃ d, t.derivative = .ok d) ↔ t.Everywhere IsDifferentiable := by
  induction t with
  | const c => simp [derivative, IsDifferentiable]
  | var => simp [derivative, IsDifferentiable]
  | unary op e ih =>
    rw [everywhere_unary, ← ih]
    cases op with
    | negate => simp [derivative, bind_eq_ok, IsDifferentiable, pure, Except.pure]
    | keep => simp [derivative, IsDifferentiable]
  | binary op l r ihl ihr =>
    rw [everywhere_binary, ← ihl, ← ihr]
    simp [derivative, bind_eq_ok, IsDifferentiable, pure, Except.pure]
  | call name base e ih =>
    rw [everywhere_call, ← ih, ← exists_outerDerivative_iff (call name base e), and_comm]
    simp [derivative, bind_eq_ok, pure, Except.pure]

theorem isPreserved_isDifferentiable : IsPreserved IsDifferentiable where
  const _ _ := trivial
  unary _ _ := trivial
  binary _ _ _ := trivial
  function _ h _ := Or.inl h
  argument _ _ _ _ h := h

/-! ## Values -/

/-- If there is no value, a divisor that counts as zero is to blame. -/
def FailsOnlyByDivision (ε x : Float) (t : Expr) : Prop :=
  ∀ err, t.evaluate ε x = .error err → ∃ b q, err = .evaluation (.divisionByZero b q)

theorem mem_postOrder {n : Expr} : n ∈ t.postOrder ↔ n ∈ t.nodes := by
  induction t with
  | const c => simp [postOrder, nodes]
  | var => simp [postOrder, nodes]
  | unary op e ih => simp [postOrder, nodes, ih, or_comm]
  | binary op l r ihl ihr => simp [postOrder, nodes, ihl, ihr, or_comm, or_left_comm]
  | call name base e ih => simp [postOrder, nodes, ih, or_comm]

/-- A node that has a derivative offends only by its divisor. -/
theorem Offends.divisionByZero {err : EvaluationError} (h : Offends ε x node err)
    (hnode : IsDifferentiable node) : ∃ b q, err = .divisionByZero b q := by
  cases h with
  | divisor _ _ => exact ⟨_, _, rfl⟩
  | unknown hlog hname =>
    rcases hnode with hname' | ⟨hlog', -⟩
    · exact absurd hname' hname
    · exact absurd hlog' hlog
  | missing =>
    rcases hnode with hname | ⟨-, b, hb, -⟩
    · exact absurd hname (by decide)
    · cases hb
  | invalid hb =>
    rcases hnode with hname | ⟨-, b, hbase, hzero, hone, -⟩
    · exact absurd hname (by decide)
    · cases hbase
      exact (hb.elim hzero hone).elim

/-- A base within the doubles can be written. -/
theorem withinDigitLimit_of_isFinite {b : ℤ} (hb : 0 ≤ b) (h : (Float.ofInt b).isFinite) :
    withinDigitLimit b := by
  obtain ⟨n, rfl⟩ := Int.eq_ofNat_of_zero_le hb
  have hlt : n < 2 ^ 1024 := Double.lt_of_isFinite_ofNat h
  have hexponent : 1024 ≤ digitLimit := by decide
  -- The powers stay symbols: numbers that long are not worth computing.
  generalize 1024 = k at hlt hexponent
  rw [withinDigitLimit_iff, abs_of_nonneg hb]
  calc (n : ℤ) < 2 ^ k := by exact_mod_cast hlt
    _ ≤ 10 ^ k := pow_le_pow_left₀ (by norm_num) (by norm_num) k
    _ ≤ 10 ^ digitLimit := pow_le_pow_right₀ (by norm_num) hexponent

/-- **What has a derivative can be written**, and so can the messages about its nodes. -/
theorem isWritable_of_differentiable (ht : t.Everywhere HasNaturalBase)
    (hdiff : t.Everywhere IsDifferentiable) : t.isWritable := by
  rw [isWritable_iff]
  intro n hn
  have hnatural := ht n hn
  have hnode := hdiff n hn
  cases n with
  | call name base e =>
    rintro rfl b hb
    rcases hnode with hname | ⟨-, c, rfl, -, -, hfinite⟩
    · exact absurd hname (by decide)
    · cases hb
      exact withinDigitLimit_of_isFinite (hnatural rfl _ rfl) hfinite
  | _ => trivial

/-- **What has a derivative fails only by division.** -/
theorem failsOnlyByDivision (hε : 0.0 < ε) (ht : t.Everywhere HasNaturalBase)
    (hdiff : t.Everywhere IsDifferentiable) (x : Float) : t.FailsOnlyByDivision ε x := by
  intro err herr
  have hwritable : t.isWritable := isWritable_of_differentiable ht hdiff
  rcases (settled hε x ht).of_isWritable hwritable with ⟨-, v, hv⟩ | ⟨err', hfirst, hv⟩
  · rw [hv] at herr
    cases herr
  · rw [hv] at herr
    cases herr
    obtain ⟨before, n, after, hnodes, -, hoffends⟩ := hfirst
    have hn : n ∈ t.nodes := by
      rw [← mem_postOrder, hnodes]
      simp
    obtain ⟨b, q, rfl⟩ := hoffends.divisionByZero (hdiff n hn)
    exact ⟨b, q, rfl⟩

end Expr

open SymCalc.Expr

variable {ε : Float} {t : Expr}

/-! ## Steps -/

/-- Where every call has a derivative, no step fails. -/
theorem exists_result (hε : 0.0 < ε) (hnatural : t.Everywhere HasNaturalBase)
    (hdiff : t.Everywhere IsDifferentiable) (step : Transformation) :
    ∃ s, step.result ε t = .ok s := by
  cases step with
  | differentiate => exact exists_derivative_iff.mpr hdiff
  | simplify => exact exists_simplify hε hnatural

/-- **Having a derivative is decided once.** An expression has one exactly if each of its calls
does. Then whatever steps lead from it to another expression, that has a derivative again, and with
a division epsilon above zero all steps succeed, and neither evaluating the expression itself nor
evaluating what they lead to fails but by division. -/
theorem differentiable_transform (ht : t.Everywhere HasNaturalBase) :
    ((∃ d, t.derivative = .ok d) ↔ t.Everywhere IsDifferentiable) ∧
    ((∃ d, t.derivative = .ok d) → ∀ ε es steps,
      (∀ s, (t.transform ε steps (.after ε es)).1 = .ok s →
        (∃ d, s.derivative = .ok d) ∧ (0.0 < ε → ∀ x, s.FailsOnlyByDivision ε x)) ∧
      (0.0 < ε → ∃ s, (t.transform ε steps (.after ε es)).1 = .ok s)) := by
  refine ⟨exists_derivative_iff, ?_⟩
  intro hderivative ε es steps
  have hdiff : t.Everywhere IsDifferentiable := exists_derivative_iff.mp hderivative
  have hm : (Memo.after ε es).Faithful ε := Memo.faithful_after ε es
  constructor
  · intro s hs
    have hs' : s.Everywhere IsDifferentiable :=
      everywhere_transform isPreserved_isDifferentiable hm hdiff hs
    have hnatural : s.Everywhere HasNaturalBase :=
      everywhere_transform isPreserved_hasNaturalBase hm ht hs
    exact ⟨exists_derivative_iff.mpr hs', fun hε x => failsOnlyByDivision hε hnatural hs' x⟩
  · intro hε
    refine exists_transform
      (P := fun t => t.Everywhere HasNaturalBase ∧ t.Everywhere IsDifferentiable) ?_ hm ⟨ht, hdiff⟩
    rintro t step ⟨hnatural, hdiff⟩
    obtain ⟨s, hs⟩ := exists_result hε hnatural hdiff step
    exact ⟨s, hs, everywhere_result isPreserved_hasNaturalBase step hnatural hs,
      everywhere_result isPreserved_isDifferentiable step hdiff hs⟩

/-- The logarithm of a quotient, simplified and differentiated in turn. -/
theorem differentiable_transform_logarithm :
    let t := call "log" (some 10) (binary .div var (call "sin" none var))
    let steps := [.simplify, .differentiate, .differentiate, .simplify]
    ∃ s, (t.transform 1e-10 steps (.after 1e-10 [t])).1 = .ok s ∧ (∃ d, s.derivative = .ok d) ∧
      ∀ x, s.FailsOnlyByDivision 1e-10 x := by
  intro t steps
  have hε : (0.0 : Float) < 1e-10 := by decide
  have hnatural : t.Everywhere HasNaturalBase := by simp [t, HasNaturalBase]
  obtain ⟨-, hsteps⟩ := differentiable_transform hnatural
  obtain ⟨hclosed, hexists⟩ := hsteps ⟨_, rfl⟩ 1e-10 [t] steps
  obtain ⟨s, hs⟩ := hexists hε
  obtain ⟨hderivative, hvalue⟩ := hclosed s hs
  exact ⟨s, hs, hderivative, hvalue hε⟩

end SymCalc
