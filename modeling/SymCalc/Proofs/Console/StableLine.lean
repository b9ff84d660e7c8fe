import SymCalc.Proofs.Console.Answer
import SymCalc.Proofs.Console.Independence
import SymCalc.Proofs.Expr.CanonicalForm
import SymCalc.Proofs.Expr.Differentiability
import SymCalc.Proofs.Expr.NormalForm

/-!
# Simplified forms are stable through text

**Theorem (`simplified_line_stable`).** What is written for a simplified form is read and simplified
to that form again. So a line with the simplified form that an answer shows is answered with the
same simplified form.

The expression that is read need not be the one that was written: a negative constant is read as a
sign before its magnitude, and that may be written differently, `-2+x` and not `(-2)+x`. It is the
canonical form of what was written, though. That simplifies to what the expression itself simplifies
to (`simplify_canonical`), and a simplified form is its own simplified form
(`simplify_simplified`).

The answer also shows the derivative. The simplified form has one if the expression does, since
simplifying keeps what a derivative needs (`isPreserved_isDifferentiable`).
-/

namespace SymCalc

open Text

namespace Expr

variable {ε : Float} {L : ℤ} {t s : Expr}

/-! ## Expressions -/

/-- A text that does not nest too deep is read as the canonical form of what was written. -/
theorem parse_canonical (ht : t.WellFormed) (hL : nesting t.render.toList ≤ L) :
    Expr.parse L t.render = .ok t.canonical := by
  obtain ⟨n, rfl⟩ := Int.eq_ofNat_of_zero_le ((Int.natCast_nonneg _).trans hL)
  exact parse_of_nesting_le ht (Int.ofNat_le.mp hL)

/-- **A simplified form that is written, read and simplified comes back.** -/
theorem simplify_parse_render (ht : t.WellFormed) (hs : t.simplify ε = .ok s)
    (hL : nesting s.render.toList ≤ L) :
    (Expr.parse L s.render >>= Expr.simplify ε) = .ok s := by
  have hwell : s.WellFormed := ht.simplify hs
  rw [parse_canonical hwell hL]
  calc s.canonical.simplify ε = s.simplify ε := simplify_canonical hwell.finite
    _ = .ok s := simplify_simplified hs

end Expr

namespace Console

open SymCalc.Expr

variable {c : Settings} {line text : String} {x? : Option Float} {texts : List String}
  {e t s d slope : Expr}

/-! ## Lines -/

/-- This is the answer to the line, whatever was asked before. -/
def HasAnswer (c : Settings) (line : String) (texts : List String) : Prop :=
  ∀ m : Memo, m.Faithful c.epsilon → (answer c line m).1 = .ok texts

/-- The answer shows this simplified form. -/
def ShowsSimplified (texts : List String) (s : Expr) : Prop :=
  texts[1]? = some (" =  " ++ s.render)

theorem hasAnswer_iff : HasAnswer c line texts ↔ answerAfresh c line = .ok texts := by
  constructor
  · intro h
    obtain ⟨hempty, -⟩ := computes_answer c line .empty (Memo.faithful_empty c.epsilon)
    exact hempty.symm.trans (h .empty (Memo.faithful_empty c.epsilon))
  · intro h m hm
    exact (computes_answer c line m hm).1.trans h

/-- An answer shows the simplified form of the expression on the line, which has a derivative. -/
theorem HasAnswer.showsSimplified (h : HasAnswer c line texts)
    (hsplit : splitLine line = .ok (text, x?)) (hparse : Expr.parse c.nestingLimit text = .ok e)
    (hs : e.simplify c.epsilon = .ok s) :
    ShowsSimplified texts s ∧ ∃ d, e.derivative = .ok d := by
  rw [hasAnswer_iff, answerAfresh] at h
  obtain ⟨held, hsplit', h⟩ := bind_eq_ok.mp h
  cases hsplit.symm.trans hsplit'
  obtain ⟨e', hparse', h⟩ := bind_eq_ok.mp h
  cases hparse.symm.trans hparse'
  obtain ⟨d, hd, h⟩ := bind_eq_ok.mp h
  obtain ⟨derivative, -, h⟩ := bind_eq_ok.mp h
  obtain ⟨s', hs', h⟩ := bind_eq_ok.mp h
  cases hs.symm.trans hs'
  refine ⟨?_, d, hd⟩
  cases x? with
  | none =>
    cases h
    rfl
  | some x =>
    obtain ⟨value, -, h⟩ := bind_eq_ok.mp h
    obtain ⟨slope, -, h⟩ := bind_eq_ok.mp h
    cases h
    rfl

/-- What is written for an expression holds no value of `x`. -/
theorem splitLine_render (ht : t.WellFormed) : splitLine t.render = .ok (t.render, none) := by
  apply splitLine_of_not_mem
  intro hat
  have htext : IsTextChar '@' := (derives_canonical ht).isTextChar '@' hat
  have hnot : ¬IsTextChar '@' := by
    unfold IsTextChar
    decide
  exact hnot htext

/-- The answer to a line that is written for an expression, if what it shows can be computed. -/
theorem hasAnswer_render (ht : t.WellFormed) (hL : nesting t.render.toList ≤ c.nestingLimit)
    (hs : t.simplify c.epsilon = .ok s) (hd : t.derivative = .ok d)
    (hslope : d.simplify c.epsilon = .ok slope) :
    HasAnswer c t.render
      [" >  " ++ t.canonical.render, " =  " ++ s.render, " d/dx  " ++ slope.render] := by
  obtain ⟨d', hd', hsame⟩ := exists_derivative_canonical (ε := c.epsilon) ht.finite hd
  have hcanonical : t.canonical.simplify c.epsilon = .ok s :=
    (simplify_canonical ht.finite).trans hs
  rw [hasAnswer_iff, answerAfresh]
  refine bind_eq_ok.mpr ⟨(t.render, none), splitLine_render ht, ?_⟩
  refine bind_eq_ok.mpr ⟨t.canonical, parse_canonical ht hL, ?_⟩
  refine bind_eq_ok.mpr ⟨d', hd', ?_⟩
  refine bind_eq_ok.mpr ⟨slope, hsame.trans hslope, ?_⟩
  exact bind_eq_ok.mpr ⟨s, hcanonical, rfl⟩

/-- With a division epsilon above zero, a line that is written for an expression with a derivative
is answered. -/
theorem exists_answer_render (hε : 0.0 < c.epsilon) (ht : t.WellFormed)
    (hL : nesting t.render.toList ≤ c.nestingLimit) (hd : t.derivative = .ok d) :
    ∃ texts, HasAnswer c t.render texts := by
  have hnatural : t.Everywhere HasNaturalBase := natural_of_isProperCall ht.proper
  obtain ⟨s, hs⟩ := exists_simplify hε hnatural
  obtain ⟨slope, hslope⟩ := exists_simplify hε (natural_derivative hnatural hd)
  exact ⟨_, hasAnswer_render ht hL hs hd hslope⟩

/-- **The simplified form that is shown is stable through text.** If it does not nest too deep, it
is read and simplified to itself. So wherever a line with it is answered, the answer shows it again,
and it is answered if the derivative can be simplified. With a division epsilon above zero that is
so whenever the form was shown in the answer to a line, with or without a value of `x`, that holds
the expression. -/
theorem simplified_line_stable (ht : t.WellFormed) (hs : t.simplify c.epsilon = .ok s)
    (hL : nesting s.render.toList ≤ c.nestingLimit) :
    (Expr.parse c.nestingLimit s.render >>= Expr.simplify c.epsilon) = .ok s ∧
    (∀ texts, HasAnswer c s.render texts → ShowsSimplified texts s) ∧
    (∀ d slope, s.derivative = .ok d → d.simplify c.epsilon = .ok slope →
      HasAnswer c s.render
        [" >  " ++ s.canonical.render, " =  " ++ s.render, " d/dx  " ++ slope.render]) ∧
    ∀ line text x? texts, splitLine line = .ok (text, x?) →
      Expr.parse c.nestingLimit text = .ok t → HasAnswer c line texts →
      ShowsSimplified texts s ∧ (0.0 < c.epsilon → ∃ texts, HasAnswer c s.render texts) := by
  have hstable := simplify_parse_render ht hs hL
  have hwell : s.WellFormed := ht.simplify hs
  refine ⟨hstable, ?_, ?_, ?_⟩
  · intro texts hanswer
    obtain ⟨e, hparse, hsimplified⟩ := bind_eq_ok.mp hstable
    exact (hanswer.showsSimplified (splitLine_render hwell) hparse hsimplified).1
  · intro d slope hd hslope
    exact hasAnswer_render hwell hL (simplify_simplified hs) hd hslope
  · intro line text x? texts hsplit hparse hanswer
    obtain ⟨hshows, hderivative⟩ := hanswer.showsSimplified hsplit hparse hs
    refine ⟨hshows, fun hε => ?_⟩
    have hdiff : s.Everywhere IsDifferentiable :=
      everywhere_simplify isPreserved_isDifferentiable (exists_derivative_iff.mp hderivative) hs
    obtain ⟨d, hd⟩ := exists_derivative_iff.mpr hdiff
    exact exists_answer_render hε hwell hL hd

/-- A sum with a negative constant is read as a sum with a signed one, and simplified to itself. -/
theorem simplified_line_stable_negative_constant :
    let t := binary .add (binary .sub (number 0.0) (number 2.0)) var
    let s := binary .add (number (-2.0)) var
    let u := binary .add (unary .negate (number 2.0)) var
    Expr.parse 100 s.render = .ok u ∧
    (Expr.parse 100 s.render >>= Expr.simplify 1e-10) = .ok s ∧
    (∃ texts, HasAnswer .standard t.render texts ∧ ShowsSimplified texts s) ∧
    HasAnswer .standard s.render
      [" >  " ++ u.render, " =  " ++ s.render, " d/dx  " ++ (number 1.0).render] := by
  intro t s u
  have ht : t.WellFormed := {
    finite := by simp [t, HasFiniteValue, number]; decide
    proper := by simp [t, IsProperCall, number] }
  have hs : t.simplify Settings.standard.epsilon = .ok s := rfl
  have hwell : s.WellFormed := ht.simplify hs
  have hε : 0.0 < Settings.standard.epsilon := by decide
  have hnesting {e : Expr} (he : e.WellFormed) (hdepth : e.depth ≤ 3) :
      (nesting e.render.toList : ℤ) ≤ Settings.standard.nestingLimit := by
    obtain ⟨-, -, hle, -⟩ := parse_render he 0
    have hlimit : nesting e.render.toList ≤ 100 := by omega
    exact Int.ofNat_le.mpr hlimit
  have hparse : Expr.parse Settings.standard.nestingLimit t.render = .ok t :=
    parse_canonical ht (hnesting ht (by decide))
  obtain ⟨hstable, -, hagain, hline⟩ := simplified_line_stable ht hs (hnesting hwell (by decide))
  obtain ⟨texts, hanswer⟩ := exists_answer_render hε ht (hnesting ht (by decide)) rfl
  obtain ⟨hshows, -⟩ := hline _ _ _ _ (splitLine_render ht) hparse hanswer
  exact ⟨parse_canonical hwell (hnesting hwell (by decide)), hstable, ⟨texts, hanswer, hshows⟩,
    hagain _ _ rfl rfl⟩

end Console

end SymCalc
