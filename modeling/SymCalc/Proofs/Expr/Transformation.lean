import SymCalc.Proofs.Expr.CanonicalForm
import SymCalc.Proofs.Expr.Remembering
import SymCalc.Proofs.Expr.Soundness

/-!
# Whatever is computed can be read

**Theorem (`transform_readable`).** Read an expression without infinite constants, and
differentiate and simplify it in any order, any number of times. If that succeeds, the result can
be written, and its text is read again, unless it nests too deep, as an expression with the same
values.

What is remembered of earlier simplifications makes no difference (`computes_transform`), so what
one step preserves, all steps do (`everywhere_transform`). Here that is `WellFormed`. The result
need not be what is read from its text: folding makes negative constants, and reading makes none.
-/

namespace SymCalc

open Text SymCalc.Expr

variable {ε : Float} {m : Memo} {t s : Expr}

/-- What is done to an expression. -/
inductive Transformation where
  | differentiate
  | simplify
deriving DecidableEq

/-- Does it, with what is remembered of earlier simplifications. -/
def Transformation.apply (ε : Float) (t : Expr) : Transformation → Remembering Expr
  | differentiate => t.derivative
  | simplify => t.simplifyRemembering ε

/-- Carries out the steps, each on the result of the one before. -/
def Expr.transform (ε : Float) (t : Expr) (steps : List Transformation) : Remembering Expr :=
  steps.foldlM (Transformation.apply ε) t

/-! ## Steps without a memory -/

/-- What a step gives if nothing is remembered. -/
def Transformation.result (ε : Float) (t : Expr) : Transformation → Except Error Expr
  | differentiate => t.derivative
  | simplify => t.simplify ε

theorem computes_apply (t : Expr) (step : Transformation) :
    Computes ε (step.apply ε t) (step.result ε t) := by
  cases step with
  | differentiate => exact computes_lift t.derivative
  | simplify => exact computes_simplifyRemembering t

/-- **What is remembered makes no difference to the steps.** -/
theorem computes_transform (t : Expr) (steps : List Transformation) :
    Computes ε (t.transform ε steps) (steps.foldlM (Transformation.result ε) t) := by
  induction steps generalizing t with
  | nil => exact computes_pure t
  | cons step steps ih =>
    rw [Expr.transform, List.foldlM_cons, List.foldlM_cons]
    exact (computes_apply t step).bind ih

/-! ## What the steps preserve -/

section

variable {P : Expr → Prop} {steps : List Transformation}

/-- **One step** preserves what differentiating and simplifying preserve. -/
theorem everywhere_result (hP : IsPreserved P) (step : Transformation) (ht : t.Everywhere P)
    (h : step.result ε t = .ok s) : s.Everywhere P := by
  cases step with
  | differentiate => exact everywhere_derivative hP ht h
  | simplify => exact everywhere_simplify hP ht h

/-- **All steps** preserve it. -/
theorem everywhere_transform (hP : IsPreserved P) (hm : m.Faithful ε) (ht : t.Everywhere P)
    (h : (t.transform ε steps m).1 = .ok s) : s.Everywhere P := by
  rw [(computes_transform t steps m hm).1] at h
  induction steps generalizing t with
  | nil =>
    cases h
    exact ht
  | cons step steps ih =>
    rw [List.foldlM_cons] at h
    obtain ⟨t', ht', h⟩ := bind_eq_ok.mp h
    exact ih (everywhere_result hP step ht ht') h

/-- If no step fails on expressions with the property, and each step preserves it, the steps do not
fail. -/
theorem exists_transform
    (hP : ∀ (t : Expr) (step : Transformation), P t → ∃ s, step.result ε t = .ok s ∧ P s)
    (hm : m.Faithful ε) (ht : P t) : ∃ s, (t.transform ε steps m).1 = .ok s := by
  rw [(computes_transform t steps m hm).1]
  induction steps generalizing t with
  | nil => exact ⟨t, rfl⟩
  | cons step steps ih =>
    obtain ⟨t', hstep, ht'⟩ := hP t step ht
    rw [List.foldlM_cons, hstep]
    exact ih ht'

end

/-! ## Expressions that can be written -/

theorem transform_wellFormed (hm : m.Faithful ε) (ht : t.WellFormed) (steps : List Transformation)
    (h : (t.transform ε steps m).1 = .ok s) : s.WellFormed where
  finite := everywhere_transform isPreserved_hasFiniteValue hm ht.finite h
  proper := everywhere_transform isPreserved_isProperCall hm ht.proper h

/-- What is read can be written, if no numeral in it is too large. -/
theorem wellFormed_of_parse {L : ℕ} {text : String} (h : Expr.parse L text = .ok t)
    (hfin : t.Everywhere HasFiniteValue) : t.WellFormed := by
  obtain ⟨n, -, hderives⟩ := parse_eq_ok_iff.mp h
  exact ⟨hfin, hderives.isProperCall⟩

/-- **Whatever is computed can be read.** Let no constant of an expression that was read be
infinite, and let any steps, whatever is remembered from before, lead to a result. All its
constants are finite and all its calls can be written; and if the parentheses in its text nest no
deeper than allowed, the text is read as an expression that has the same values and fails for the
same kind of reason. -/
theorem transform_readable {L : ℕ} {text : String} (hread : Expr.parse L text = .ok t)
    (hfin : t.Everywhere HasFiniteValue) (es : List Expr) (steps : List Transformation)
    (h : (t.transform ε steps (.after ε es)).1 = .ok s) :
    s.WellFormed ∧
    (nesting s.render.toList ≤ L → ∃ u, Expr.parse L s.render = .ok u ∧
      ∀ x, outcome id (u.evaluate ε x) = outcome id (s.evaluate ε x)) := by
  have ht : t.WellFormed := wellFormed_of_parse hread hfin
  have hs : s.WellFormed := transform_wellFormed (Memo.faithful_after ε es) ht steps h
  refine ⟨hs, ?_⟩
  intro hnesting
  exact ⟨s.canonical, parse_of_nesting_le hs hnesting, fun x => outcome_evaluate_canonical ε x s⟩

/-- The derivative of `-x*2` simplifies to a negative constant, which is read as a sign before a
constant. -/
theorem transform_readable_negated_product :
    (number (-2.0)).WellFormed ∧
    ∃ u, Expr.parse 0 (number (-2.0)).render = .ok u ∧
      ∀ x, outcome id (u.evaluate 1.0 x) = outcome id ((number (-2.0)).evaluate 1.0 x) := by
  have hread : Expr.parse 0 (String.ofList ['-', 'x', '*', '2']) =
      .ok (unary .negate (binary .mul var (number 2.0))) :=
    parse_ofList derives_negated_product le_rfl
  have hfin : (unary .negate (binary .mul var (number 2.0))).Everywhere HasFiniteValue := by
    simp [HasFiniteValue, number]
    decide
  obtain ⟨hs, hreadable⟩ := transform_readable (ε := 1.0) hread hfin [] [.differentiate, .simplify]
    (s := number (-2.0)) (by rfl)
  exact ⟨hs, hreadable (by decide +kernel)⟩

end SymCalc
