import SymCalc.Proofs.Double.LeadingDigit
import SymCalc.Proofs.Polynomial.Reading
import SymCalc.Proofs.Polynomial.Slope

/-!
# Polynomials have one representation

**Theorem (`made_canonical`).** Make polynomials from coefficients, from texts and as derivatives,
in any order. Each has at least one coefficient, and the last of several is not zero. Two of them
are equal exactly if all their coefficients are equal as doubles, where a polynomial has the
coefficient zero beyond its degree. A derivative has each coefficient of the polynomial times its
power, one place lower, and its degree is one less, as long as there is something to lose.

Whoever makes a polynomial hands a list to `ofCoefficients`, which drops the zeros at the end and
nothing else (`trims_ofCoefficients`). A derivative drops nothing: the product of a positive whole
number and a double other than zero is not zero (`coefficients_derivative`).

Not-a-number differs from itself, so a polynomial is equal to itself only if its coefficients are
numbers. That they are is kept by derivatives (`Made.isNumber`).
-/

namespace SymCalc

open Double (Agree agree_of_beq beq_iff_agree isNaN_ofNat_mul ofNat_mul_ne_zero zero_beq_zero)

/-- What is dropped at the end of a list are zeros. -/
theorem beq_zero_of_mem_drop_dropZeros (cs : List Float) :
    ∀ c ∈ cs.drop (dropZeros cs).length, (c == 0.0) = true := by
  induction cs with
  | nil => nofun
  | cons c cs ih =>
    rw [dropZeros]
    cases hcs : dropZeros cs with
    | nil =>
      rw [hcs] at ih
      dsimp only
      split_ifs with hc
      · exact List.forall_mem_cons.mpr ⟨hc, ih⟩
      · exact ih
    | cons d ds =>
      rw [hcs] at ih
      exact ih

namespace Polynomial

variable {p q : Polynomial} {cs ds : List Float} {c : Float} {k : ℕ}

/-! ## Trimmed lists -/

/-- There is a coefficient, and the last of several is not zero. -/
def IsTrimmed (cs : List Float) : Prop :=
  cs ≠ [] ∧ (cs.length = 1 ∨ ∃ c, cs.getLast? = some c ∧ (c == 0.0) = false)

/-- The coefficients `ds` are the list `cs` without the zeros at its end. If nothing was given, one
zero is put in its place. -/
structure Trims (cs ds : List Float) : Prop where
  isTrimmed : IsTrimmed ds
  kept : ds <+: cs ∨ cs = [] ∧ ds = [0.0]
  dropped : ∀ c ∈ cs.drop ds.length, (c == 0.0) = true

/-- **Making a polynomial drops the zeros at the end**, and nothing else. -/
theorem trims_ofCoefficients (cs : List Float) : Trims cs (ofCoefficients cs).coefficients := by
  cases cs with
  | nil => exact ⟨⟨by simp [coefficients], Or.inl rfl⟩, Or.inr ⟨rfl, rfl⟩, by simp⟩
  | cons c cs =>
    have hcoefficients : (ofCoefficients (c :: cs)).coefficients = c :: dropZeros cs := rfl
    rw [hcoefficients]
    refine ⟨⟨List.cons_ne_nil _ _, ?_⟩, Or.inl ?_, ?_⟩
    · cases hlast : (dropZeros cs).getLast? with
      | none =>
        rw [List.getLast?_eq_none_iff.mp hlast]
        exact Or.inl rfl
      | some d =>
        refine Or.inr ⟨d, ?_, getLast?_dropZeros cs d hlast⟩
        rw [List.getLast?_cons, hlast]
        rfl
    · exact (List.prefix_cons_inj c).mpr (dropZeros_isPrefix cs)
    · rw [List.length_cons, List.drop_succ_cons]
      exact beq_zero_of_mem_drop_dropZeros cs

/-- Nothing is dropped from a list without a zero at its end. -/
theorem coefficients_ofCoefficients (hne : cs ≠ [])
    (h : ∀ c ∈ cs.getLast?, (c == 0.0) = false) : (ofCoefficients cs).coefficients = cs := by
  obtain ⟨c, cs, rfl⟩ := List.exists_cons_of_ne_nil hne
  have htail : ∀ d ∈ cs.getLast?, (d == 0.0) = false := by
    intro d hd
    refine h d ?_
    rw [List.getLast?_cons, hd]
    rfl
  show c :: dropZeros cs = c :: cs
  rw [dropZeros_eq_self htail]

/-! ## Derivatives -/

/-- A derivative of a polynomial that is not constant has all the products. -/
theorem coefficients_derivative (hne : p.higher ≠ []) :
    p.derivative.coefficients = p.higher.mapIdx fun k c => Float.ofNat (k + 1) * c := by
  refine coefficients_ofCoefficients (by simpa using hne) ?_
  intro c hc
  rw [List.getLast?_mapIdx] at hc
  obtain ⟨d, hd, rfl⟩ := Option.map_eq_some_iff.mp hc
  exact ofNat_mul_ne_zero (Nat.succ_pos _) (p.trimmed d hd)

/-- **The degree of a derivative** is one less. -/
theorem degree_derivative (p : Polynomial) : p.derivative.degree = p.degree - 1 := by
  by_cases hne : p.higher = []
  · rw [derivative, degree, degree, hne]
    rfl
  · have hlength := congrArg List.length (coefficients_derivative hne)
    rw [length_coefficients, List.length_mapIdx] at hlength
    rw [degree] at hlength ⊢
    rw [degree]
    omega

/-- **The coefficients of a derivative**, up to its degree. -/
theorem coefficient_derivative (hk : k < p.degree) :
    p.derivative.coefficient k = Float.ofNat (k + 1) * p.coefficient (k + 1) := by
  have hne : p.higher ≠ [] := List.length_pos_iff.mp (Nat.zero_lt_of_lt hk)
  rw [coefficient, coefficients_derivative hne, getD_mapIdx_higher hk]

theorem coefficient_derivative_of_le (hk : p.degree ≤ k) : p.derivative.coefficient k = 0.0 := by
  by_cases hne : p.higher = []
  · rw [derivative, hne]
    cases k <;> rfl
  · have hpos : 0 < p.degree := List.length_pos_iff.mpr hne
    refine coefficient_of_degree_lt ?_
    rw [degree_derivative]
    omega

/-! ## Equality -/

theorem beq_iff_getD : (cs == ds) = true ↔
    cs.length = ds.length ∧ ∀ k, (cs.getD k 0.0 == ds.getD k 0.0) = true := by
  induction cs generalizing ds with
  | nil =>
    cases ds with
    | nil => simp [zero_beq_zero]
    | cons d ds => simp
  | cons c cs ih =>
    cases ds with
    | nil => simp
    | cons d ds =>
      rw [List.cons_beq_cons, Bool.and_eq_true, ih, List.length_cons, List.length_cons,
        Nat.add_right_cancel_iff]
      constructor
      · rintro ⟨hc, hlength, hrest⟩
        refine ⟨hlength, fun k => ?_⟩
        cases k with
        | zero => exact hc
        | succ k => exact hrest k
      · rintro ⟨hlength, hall⟩
        exact ⟨hall 0, hlength, fun k => hall (k + 1)⟩

/-- A coefficient other than zero of a higher power is missing from a polynomial. -/
theorem degree_le_of_agree (h : ∀ k, Agree (p.coefficient k) (q.coefficient k)) :
    q.degree ≤ p.degree := by
  by_contra hlt
  have hlt := not_le.mp hlt
  have hne := coefficient_degree_ne_zero (Nat.zero_lt_of_lt hlt)
  have hagree := h q.degree
  rw [coefficient_of_degree_lt hlt] at hagree
  rcases hagree with heq | ⟨-, hzero⟩
  · rw [← heq, zero_beq_zero] at hne
    cases hne
  · rw [hzero] at hne
    cases hne

/-- **Polynomials are equal if all their coefficients are.** -/
theorem beq_iff_coefficient :
    (p == q) = true ↔ ∀ k, (p.coefficient k == q.coefficient k) = true := by
  have hunfold : (p == q) = (p.coefficients == q.coefficients) := rfl
  rw [hunfold, beq_iff_getD, length_coefficients, length_coefficients]
  constructor
  · rintro ⟨-, h⟩
    exact h
  · intro h
    refine ⟨congrArg (· + 1) (le_antisymm ?_ ?_), h⟩
    · exact degree_le_of_agree fun k => (agree_of_beq (h k)).symm
    · exact degree_le_of_agree fun k => agree_of_beq (h k)

/-! ## Polynomials that are made -/

/-- Polynomials that come of numbers: made from a list of them, read from a text whose sums are
numbers, or a derivative of such a polynomial, all powers of which are finite doubles. -/
inductive Made : Polynomial → Prop
  | given {cs : List Float} (hcs : ∀ c ∈ cs, c.isNaN = false) : Made (ofCoefficients cs)
  | read {text : String} {p : Polynomial} (h : parse text = .ok p)
      (hp : ∀ c ∈ p.coefficients, c.isNaN = false) : Made p
  | derived {p : Polynomial} (h : Made p) (hp : ∀ k ≤ p.degree, (Float.ofNat k).isFinite) :
      Made p.derivative

/-- A polynomial that is read is the sum of the terms. -/
theorem exists_ofTerms_of_parse {text : String} (h : parse text = .ok p) :
    ∃ ts, p = ofTerms ts := by
  rw [parse, parseChars] at h
  split_ifs at h
  cases hread : readTerms true (Text.withoutBlanks text) with
  | error stop =>
    rw [hread] at h
    cases h
  | ok ts =>
    rw [hread] at h
    cases h
    exact ⟨ts, rfl⟩

/-- **What is made is trimmed**, whichever way it is made. -/
theorem Made.isTrimmed (hp : Made p) : IsTrimmed p.coefficients := by
  cases hp with
  | given => exact (trims_ofCoefficients _).isTrimmed
  | read h =>
    obtain ⟨ts, rfl⟩ := exists_ofTerms_of_parse h
    exact (trims_ofCoefficients _).isTrimmed
  | derived => exact (trims_ofCoefficients _).isTrimmed

theorem isNaN_of_trims (h : Trims cs ds) (hcs : ∀ c ∈ cs, c.isNaN = false) :
    ∀ c ∈ ds, c.isNaN = false := by
  intro c hc
  rcases h.kept with hkept | ⟨-, rfl⟩
  · exact hcs c (hkept.subset hc)
  · rw [List.mem_singleton.mp hc]
    rfl

/-- **Coefficients that are numbers stay numbers.** -/
theorem Made.isNumber (hp : Made p) : ∀ c ∈ p.coefficients, c.isNaN = false := by
  induction hp with
  | given hcs => exact isNaN_of_trims (trims_ofCoefficients _) hcs
  | read _ hp => exact hp
  | @derived p _ hpowers ih =>
    refine isNaN_of_trims (trims_ofCoefficients _) ?_
    intro c hc
    obtain ⟨k, hk, rfl⟩ := List.mem_mapIdx.mp hc
    exact isNaN_ofNat_mul (Nat.succ_pos k) (hpowers (k + 1) hk)
      (ih _ (List.mem_cons_of_mem _ (List.getElem_mem hk)))

/-- What is made is equal to itself. -/
theorem Made.beq_self (hp : Made p) : (p == p) = true := by
  rw [beq_iff_coefficient]
  intro k
  refine (beq_iff_agree ?_).mpr (Agree.refl _)
  rw [coefficient, List.getD_eq_getElem?_getD]
  cases hk : p.coefficients[k]? with
  | none => rfl
  | some c => exact hp.isNumber c (List.mem_of_getElem? hk)

/-- **Polynomials have one representation.** Making one from a list drops the zeros at its end.
Whatever way a polynomial is made:

* it has a coefficient, and the last of several is not zero,
* it is equal to itself, and to another exactly if all coefficients are equal as doubles,
* its derivative has a degree that is one less, if it is not constant, and each coefficient times
  its power as coefficients, which is zero from the degree on. -/
theorem made_canonical (hp : Made p) (q : Polynomial) :
    (∀ cs, Trims cs (ofCoefficients cs).coefficients) ∧
    IsTrimmed p.coefficients ∧
    (p == p) = true ∧
    ((p == q) = true ↔ ∀ k, (p.coefficient k == q.coefficient k) = true) ∧
    (p.derivative.degree : ℤ) = max ((p.degree : ℤ) - 1) 0 ∧
    (∀ k < p.degree, p.derivative.coefficient k = Float.ofNat (k + 1) * p.coefficient (k + 1)) ∧
    ∀ k, p.degree ≤ k → p.derivative.coefficient k = 0.0 ∧ p.coefficient (k + 1) = 0.0 ∧
      ((Float.ofNat (k + 1)).isFinite →
        (Float.ofNat (k + 1) * p.coefficient (k + 1) == 0.0) = true) := by
  refine ⟨trims_ofCoefficients, hp.isTrimmed, hp.beq_self, beq_iff_coefficient, ?_,
    fun k => coefficient_derivative, ?_⟩
  · rw [degree_derivative]
    omega
  · intro k hk
    have hzero := coefficient_of_degree_lt (Nat.lt_succ_of_le hk)
    refine ⟨coefficient_derivative_of_le hk, hzero, fun hfinite => ?_⟩
    rw [hzero]
    exact Double.mul_zero hfinite zero_beq_zero

/-- The derivative of `3x^2 + 1`, given with a zero too many, is what is read from `6x`. -/
theorem made_canonical_quadratic :
    let p := (ofCoefficients [1.0, 0.0, 3.0, -0.0]).derivative
    Made p ∧ IsTrimmed p.coefficients ∧ (p == p) = true ∧
      (∃ q, parse "6x" = .ok q ∧ ∀ k, (p.coefficient k == q.coefficient k) = true) ∧
      (p.derivative.degree : ℤ) = 0 ∧ p.derivative.coefficient 0 = 6.0 := by
  intro p
  have hdegree : (ofCoefficients [1.0, 0.0, 3.0, -0.0]).degree = 2 := by decide
  have hmade : Made p := by
    refine .derived (.given (by decide)) fun k hk => ?_
    rw [hdegree] at hk
    exact Double.isFinite_ofNat (hk.trans (by decide))
  have hread : (parse "6x").toOption.any (p == ·) = true := by decide +kernel
  obtain ⟨q, hq, heq⟩ := (Option.any_eq_true _ _).mp hread
  have hdegree' : p.degree = 1 := by decide
  have hone : Float.ofNat 1 * p.coefficient 1 = 6.0 := by decide
  obtain ⟨-, htrimmed, hself, hequal, hslope, hcoefficients, -⟩ := made_canonical hmade q
  rw [hdegree'] at hslope hcoefficients
  exact ⟨hmade, htrimmed, hself, ⟨q, eq_ok_of_toOption hq, hequal.mp heq⟩, hslope,
    (hcoefficients 0 Nat.zero_lt_one).trans hone⟩

end Polynomial

end SymCalc
