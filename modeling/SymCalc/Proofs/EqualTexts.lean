import SymCalc.Proofs.Expr.CanonicalForm
import SymCalc.Proofs.Expr.LogarithmBases
import SymCalc.Proofs.Expr.Remembering
import SymCalc.Session

/-!
# Functions with equal texts

Functions are equal if their texts are. Different expressions can have the same text: a constant
below zero is written like a sign before its magnitude.

**Theorem (`alike_of_render_eq`).** No request tells two functions with equal texts apart: they
have the same values, equal simplified forms and equal derivatives, and what fails for one of them
fails for the other, for the same kind of reason. It makes no difference either what was simplified
before.

Equal texts have equal canonical forms, and the canonical form can stand in for the expression
(`canonical_eq_of_render_eq` and what follows it).
-/

namespace SymCalc

open Text SymCalc.Expr

variable {ε : Float} {m : Memo} {t u : Expr}

/-! ## Expressions -/

section

variable (ht : t.WellFormed) (hu : u.WellFormed) (h : t.render = u.render)
include ht hu h

theorem outcome_evaluate_of_render_eq (x : Float) :
    outcome id (t.evaluate ε x) = outcome id (u.evaluate ε x) := by
  rw [← outcome_evaluate_canonical ε x t, canonical_eq_of_render_eq ht hu h,
    outcome_evaluate_canonical]

theorem simplify_eq_of_render_eq : t.simplify ε = u.simplify ε := by
  rw [← simplify_canonical ht.finite, canonical_eq_of_render_eq ht hu h,
    simplify_canonical hu.finite]

theorem outcome_derivative_of_render_eq :
    outcome (simplify ε) t.derivative = outcome (simplify ε) u.derivative := by
  rw [← outcome_derivative_canonical ht.finite, canonical_eq_of_render_eq ht hu h,
    outcome_derivative_canonical hu.finite]

end

/-- With a division epsilon above zero, whatever can be written has a simplified form. -/
theorem Expr.WellFormed.exists_simplify (ht : t.WellFormed) (hε : 0.0 < ε) :
    ∃ s, t.simplify ε = .ok s :=
  Expr.exists_simplify hε (natural_of_isProperCall ht.proper)

/-! ## Functions -/

namespace Formula

/-- The derivative as a session makes it: simplified. -/
def simplifiedDerivative (ε : Float) (f : Formula) : Remembering Formula := do
  (← f.derivative).simplified ε

theorem simplified_of_faithful (hm : m.Faithful ε) (e : Expr) :
    ((expr e).simplified ε m).1 = (e.simplify ε).map expr := by
  obtain ⟨hresult, -⟩ := simplifyRemembering_of_faithful hm e
  rw [simplified, bind_apply, ← hresult]
  rcases e.simplifyRemembering ε m with ⟨_ | _, _⟩ <;> rfl

theorem simplifiedDerivative_of_faithful (hm : m.Faithful ε) (e : Expr) :
    ((expr e).simplifiedDerivative ε m).1 =
      e.derivative >>= fun d => (d.simplify ε).map expr := by
  rw [simplifiedDerivative, bind_apply, lift_apply, derivative]
  cases e.derivative with
  | ok d => exact simplified_of_faithful hm d
  | error err => rfl

/-- A session answers a request for a derivative with a new function, made from the simplified
derivative. -/
theorem run_derivative {settings : Settings} {s : Session} {id : ℤ} {f : NumberedFormula}
    (hf : s.find? id = some f) :
    Session.run settings (.derivative id) s =
      match f.formula.simplifiedDerivative settings.epsilon s.memo with
      | (.ok d, m) => Session.define d { s with memo := m }
      | (.error e, m) => (.error e, { s with memo := m }) := by
  have hlookup : Session.lookup id s = (.ok f, s) := by rw [Session.lookup, hf]
  rw [Session.run, bind_apply, hlookup, simplifiedDerivative, bind_apply, lift_apply]
  dsimp only
  rw [bind_apply, lift_apply]
  cases f.formula.derivative with
  | error e => rfl
  | ok d =>
    dsimp only
    rw [bind_apply, Session.tidy]
    rcases d.simplified settings.epsilon s.memo with ⟨_ | _, m⟩ <;> rfl

/-- No request tells the two apart, whatever was simplified before each of them was asked. -/
structure Alike (ε : Float) (f g : Formula) : Prop where
  evaluate (x : Float) : outcome id (f.evaluate ε x) = outcome id (g.evaluate ε x)
  simplified (es es' : List Expr) :
    outcome render (f.simplified ε (.after ε es)).1 =
      outcome render (g.simplified ε (.after ε es')).1
  exists_simplified (hε : 0.0 < ε) (es es' : List Expr) :
    ∃ f' g', (f.simplified ε (.after ε es)).1 = .ok f' ∧
      (g.simplified ε (.after ε es')).1 = .ok g' ∧ f'.render = g'.render
  derivative (es es' : List Expr) :
    outcome render (f.simplifiedDerivative ε (.after ε es)).1 =
      outcome render (g.simplifiedDerivative ε (.after ε es')).1

/-- **Functions with equal texts are alike.** -/
theorem alike_of_render_eq (ht : t.WellFormed) (hu : u.WellFormed)
    (h : (expr t).render = (expr u).render) : Alike ε (expr t) (expr u) where
  evaluate x := outcome_evaluate_of_render_eq ht hu h x
  simplified es es' := by
    rw [simplified_of_faithful (Memo.faithful_after ε es),
      simplified_of_faithful (Memo.faithful_after ε es'), simplify_eq_of_render_eq ht hu h]
  exists_simplified hε es es' := by
    obtain ⟨s, hs⟩ := ht.exists_simplify hε
    rw [simplified_of_faithful (Memo.faithful_after ε es),
      simplified_of_faithful (Memo.faithful_after ε es'), ← simplify_eq_of_render_eq ht hu h, hs]
    exact ⟨expr s, expr s, rfl, rfl, rfl⟩
  derivative es es' := by
    rw [simplifiedDerivative_of_faithful (Memo.faithful_after ε es),
      simplifiedDerivative_of_faithful (Memo.faithful_after ε es')]
    have hderivative : outcome (Expr.simplify ε) t.derivative = outcome _ u.derivative :=
      outcome_derivative_of_render_eq ht hu h
    refine outcome_bind hderivative ?_
    intro d d' hd
    rw [hd]

/-- A power of `-2` and one of a sign before `2`. -/
theorem alike_negative_exponent :
    Alike 1e-10 (expr (binary .pow var (number (-2.0))))
      (expr (binary .pow var (unary .negate (number 2.0)))) := by
  refine alike_of_render_eq ⟨?_, ?_⟩ ⟨?_, ?_⟩ (by decide +kernel)
  · simp [HasFiniteValue, number]
    decide
  · simp [IsProperCall, number]
  · simp [HasFiniteValue, number]
    decide
  · simp [IsProperCall, number]

end Formula

end SymCalc
