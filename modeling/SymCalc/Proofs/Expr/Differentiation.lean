import SymCalc.Expr.Derivative
import SymCalc.Proofs.Double.Agreement
import SymCalc.Proofs.Expr.Nodes

/-!
# Derivatives are derivatives

**Theorem (`derivative_correct`).** Read an expression as a function on the real numbers, with
exact constants and exact functions. Where the expression is regular it has a derivative, and that
is the value of the expression that `derivative` gives.

* `real` — the function that an expression stands for.
* `IsRegular` — no divisor is zero, bases of powers are positive, calls are in their domain.
* `IsDefined` — the same for all expressions that have a value, so also for squares of numbers
  below zero. Derivatives of quotients and tangents contain such squares.

The proof is an induction over the expression with one lemma for each rule: `hasDerivAt_operation`
and `isDefined_operation` for operations, `exists_outerDerivative` for calls. The derivative of a
logarithm has its base as a constant, which is why the base must be a whole number that doubles
have.
-/

namespace SymCalc

open Double

/-! ## Exact constants -/

namespace Double

open Float.Model UnpackedFloat

theorem exact_of_beq_zero {x : Float} (h : (x == 0.0) = true) : exact x = 0 := by
  obtain ⟨s, hs⟩ := beq_zero_iff.mp h
  simp only [exact, hs]

theorem exact_one : exact 1.0 = 1 := by
  rw [exact_of_parts parts_one]
  norm_num [Sign.apply]

theorem exact_two : exact 2.0 = 2 := by
  have hparts : parts 2.0 = .finite .positive (2 ^ 52) (-51) (by decide) := rfl
  rw [exact_of_parts hparts]
  norm_num [Sign.apply]

theorem exact_negOne : exact (-1.0) = -1 := by
  have hparts : parts (-1.0) = .finite .negative (2 ^ 52) (-52) (by decide) := rfl
  rw [exact_of_parts hparts]
  norm_num [Sign.apply]

end Double

namespace Expr

/-! ## Exact values -/

/-- The function that a call stands for, exactly. -/
noncomputable def realFunction (name : String) (base : Option ℤ) : ℝ → ℝ :=
  if name = "log" then fun v => Real.log v / Real.log (base.getD 0)
  else if name = "sin" then Real.sin
  else if name = "cos" then Real.cos
  else if name = "tan" then Real.tan
  else if name = "ln" then Real.log
  else 0

/-- The exact value of an expression at a real number. -/
noncomputable def real : Expr → ℝ → ℝ
  | const c, _ => exact c.value
  | var, x => x
  | unary .negate e, x => -e.real x
  | unary .keep e, x => e.real x
  | binary .add l r, x => l.real x + r.real x
  | binary .sub l r, x => l.real x - r.real x
  | binary .mul l r, x => l.real x * r.real x
  | binary .div l r, x => l.real x / r.real x
  | binary .pow l r, x => l.real x ^ r.real x
  | call name base e, x => realFunction name base (e.real x)

/-- A power with a whole exponent is the ordinary power, whatever the base. -/
theorem real_pow_of_whole {l r : Expr} {x : ℝ} {n : ℤ} (h : r.real x = n) :
    (binary .pow l r).real x = l.real x ^ n := by
  rw [real, h, Real.rpow_intCast]

/-- If it is a call, it is one of a sine, a cosine, a tangent, a natural logarithm, or a logarithm
whose base is at least two and not too large for doubles. -/
def IsElementary : Expr → Prop
  | call name base _ =>
    name = "sin" ∨ name = "cos" ∨ name = "tan" ∨ name = "ln" ∨
      name = "log" ∧ ∃ b : ℤ, base = some b ∧ 2 ≤ b ∧ b ≤ 2 ^ 53
  | _ => True

/-- Arguments of logarithms are positive, and those of tangents are not poles. -/
def InDomain (name : String) (v : ℝ) : Prop :=
  (name = "ln" ∨ name = "log" → 0 < v) ∧ (name = "tan" → Real.cos v ≠ 0)

/-- No divisor is zero, all bases of powers are positive, and calls are in their domain. -/
def IsRegular (x : ℝ) : Expr → Prop
  | binary .div _ r => r.real x ≠ 0
  | binary .pow l _ => 0 < l.real x
  | call name _ e => InDomain name (e.real x)
  | _ => True

/-- The node has an exact value if its operands do: constants are finite, no divisor is zero, a
power has a positive base or is an ordinary one, and calls are in their domain. -/
def IsDefined (x : ℝ) : Expr → Prop
  | const c => c.value.isFinite
  | binary .div _ r => r.real x ≠ 0
  | binary .pow l r => 0 < l.real x ∨ ∃ n : ℤ, r.real x = n ∧ (l.real x ≠ 0 ∨ 0 ≤ n)
  | call name base e => IsElementary (call name base e) ∧ InDomain name (e.real x)
  | _ => True

theorem isDefined_of_isRegular {x : ℝ} {e : Expr} (hfin : HasFiniteValue e) (hel : IsElementary e)
    (hreg : IsRegular x e) : IsDefined x e := by
  cases e with
  | const c => exact hfin
  | var => trivial
  | unary op e => trivial
  | binary op l r =>
    cases op with
    | div => exact hreg
    | pow => exact Or.inl hreg
    | _ => trivial
  | call name base e => exact ⟨hel, hreg⟩

variable {x : ℝ} {e l r l' r' : Expr}

@[simp] theorem real_number (v : Float) : (number v).real x = exact v := by
  show ((exact (Constant.ofFloat v).value : ℚ) : ℝ) = exact v
  rw [Constant.ofFloat]
  split_ifs with h
  · rw [exact_of_beq_zero h]
    rfl
  · rfl

theorem everywhere_number {v : Float} (h : v.isFinite) : (number v).Everywhere (IsDefined x) :=
  everywhere_const.mpr (Constant.isFinite_ofFloat h)

/-! ## Operations -/

/-- **The rules for operations.** -/
theorem hasDerivAt_operation {op : BinaryOp} (hl : HasDerivAt l.real (l'.real x) x)
    (hr : HasDerivAt r.real (r'.real x) x) (h : IsRegular x (binary op l r)) :
    HasDerivAt (binary op l r).real ((operationDerivative op l r l' r').real x) x := by
  cases op with
  | add => exact hl.add hr
  | sub => exact hl.sub hr
  | mul => exact hl.mul hr
  | div =>
    have htwo : r.real x ^ (exact 2.0 : ℝ) = r.real x ^ 2 := by
      rw [exact_two]
      exact Real.rpow_two _
    have hquotient := hl.div hr h
    show HasDerivAt (fun y => l.real y / r.real y)
      ((l'.real x * r.real x - l.real x * r'.real x) / r.real x ^ (number 2.0).real x) x
    rw [real_number, htwo]
    exact hquotient
  | pow =>
    have hpos : 0 < l.real x := h
    refine (hl.rpow hr hpos).congr_deriv ?_
    show _ = l.real x ^ r.real x *
      (r'.real x * Real.log (l.real x) + r.real x * l'.real x / l.real x)
    rw [Real.rpow_sub_one hpos.ne']
    field_simp
    ring

/-- A square is an ordinary power. -/
theorem isDefined_square : IsDefined x (binary .pow l (number 2.0)) := by
  refine Or.inr ⟨2, ?_, Or.inr (by decide)⟩
  rw [real_number, exact_two]
  norm_num

theorem real_square : (binary .pow l (number 2.0)).real x = l.real x ^ 2 := by
  rw [real, real_number, exact_two]
  exact Real.rpow_two _

theorem isDefined_ln (h : 0 < l.real x) : IsDefined x (ln l) :=
  ⟨Or.inr (Or.inr (Or.inr (Or.inl rfl))), fun _ => h, fun htan => absurd htan (by decide)⟩

/-- The derivative of an operation is defined if its parts are. -/
theorem isDefined_operation {op : BinaryOp} (hl : l.Everywhere (IsDefined x))
    (hr : r.Everywhere (IsDefined x)) (hl' : l'.Everywhere (IsDefined x))
    (hr' : r'.Everywhere (IsDefined x)) (h : IsRegular x (binary op l r)) :
    (operationDerivative op l r l' r').Everywhere (IsDefined x) := by
  cases op with
  | add =>
    simp only [operationDerivative, everywhere_binary]
    exact ⟨trivial, hl', hr'⟩
  | sub =>
    simp only [operationDerivative, everywhere_binary]
    exact ⟨trivial, hl', hr'⟩
  | mul =>
    simp only [operationDerivative, everywhere_binary]
    exact ⟨trivial, ⟨trivial, hl', hr⟩, trivial, hl, hr'⟩
  | div =>
    have hne : r.real x ≠ 0 := h
    have hsquare : (binary .pow r (number 2.0)).real x ≠ 0 := by
      rw [real_square]
      exact pow_ne_zero 2 hne
    simp only [operationDerivative, everywhere_binary]
    exact ⟨hsquare, ⟨trivial, ⟨trivial, hl', hr⟩, trivial, hl, hr'⟩, isDefined_square, hr,
      everywhere_number (by decide)⟩
  | pow =>
    have hpos : 0 < l.real x := h
    simp only [operationDerivative, ln, everywhere_binary, everywhere_call]
    exact ⟨trivial, ⟨Or.inl hpos, hl, hr⟩, trivial, ⟨trivial, hr', isDefined_ln hpos, hl⟩,
      hpos.ne', ⟨trivial, hr, hl'⟩, hl⟩

/-! ## Calls -/

theorem hasDerivAt_tan {v : ℝ} (h : Real.cos v ≠ 0) :
    HasDerivAt Real.tan (1 + Real.tan v ^ 2) v := by
  refine (Real.hasDerivAt_tan h).congr_deriv ?_
  rw [← Real.inv_one_add_tan_sq h, one_div, inv_inv]

theorem ofInt?_of_le {n : ℕ} (hn : n ≤ 2 ^ 53) : ofInt? n = .ok (number (Float.ofNat n)) := by
  have hinf : (Float.ofNat n).isInf = false := isInf_of_finite (isFinite_ofNat hn)
  show (if (Float.ofNat n).isInf then _ else _) = _
  rw [hinf]
  rfl

/-- What is asked of the derivative of a function at the argument `e`. -/
structure IsOuterDerivative (x : ℝ) (name : String) (base : Option ℤ) (e outer : Expr) : Prop where
  defined : outer.Everywhere (IsDefined x)
  hasDerivAt : HasDerivAt (realFunction name base) (outer.real x) (e.real x)

theorem outerDerivative_sin {base : Option ℤ} (he : e.Everywhere (IsDefined x)) :
    IsOuterDerivative x "sin" base e (call "cos" none e) where
  defined := everywhere_call.mpr ⟨by simp [IsDefined, IsElementary, InDomain], he⟩
  hasDerivAt := Real.hasDerivAt_sin (e.real x)

theorem outerDerivative_cos {base : Option ℤ} (he : e.Everywhere (IsDefined x)) :
    IsOuterDerivative x "cos" base e (binary .mul (number (-1.0)) (call "sin" none e)) where
  defined := by
    simp only [everywhere_binary, everywhere_call]
    exact ⟨trivial, everywhere_number (by decide), by simp [IsDefined, IsElementary, InDomain], he⟩
  hasDerivAt := by
    refine (Real.hasDerivAt_cos (e.real x)).congr_deriv ?_
    show _ = (number (-1.0)).real x * Real.sin (e.real x)
    rw [real_number, exact_negOne]
    push_cast
    ring

theorem outerDerivative_tan {base : Option ℤ} (he : e.Everywhere (IsDefined x))
    (h : Real.cos (e.real x) ≠ 0) :
    IsOuterDerivative x "tan" base e
      (binary .add (number 1.0) (binary .pow (call "tan" none e) (number 2.0))) where
  defined := by
    have htan : IsDefined x (call "tan" none e) := by
      simp [IsDefined, IsElementary, InDomain, h]
    simp only [everywhere_binary, everywhere_call]
    exact ⟨trivial, everywhere_number (by decide), isDefined_square, ⟨htan, he⟩,
      everywhere_number (by decide)⟩
  hasDerivAt := by
    refine (hasDerivAt_tan h).congr_deriv ?_
    show _ = (number 1.0).real x + (binary .pow (call "tan" none e) (number 2.0)).real x
    rw [real_number, exact_one, real_square]
    push_cast
    rfl

theorem outerDerivative_ln {base : Option ℤ} (he : e.Everywhere (IsDefined x))
    (h : 0 < e.real x) :
    IsOuterDerivative x "ln" base e (binary .div (number 1.0) e) where
  defined := everywhere_binary.mpr ⟨h.ne', everywhere_number (by decide), he⟩
  hasDerivAt := by
    refine (Real.hasDerivAt_log h.ne').congr_deriv ?_
    show _ = (number 1.0).real x / e.real x
    rw [real_number, exact_one, Rat.cast_one, one_div]

theorem outerDerivative_log {n : ℕ} (he : e.Everywhere (IsDefined x)) (h : 0 < e.real x)
    (hn : 2 ≤ n) (hn' : n ≤ 2 ^ 53) :
    IsOuterDerivative x "log" (some n) e
      (binary .div (number 1.0) (binary .mul e (ln (number (Float.ofNat n))))) := by
  have hvalue : (number (Float.ofNat n)).real x = n := by
    rw [real_number, exact_ofNat hn', Rat.cast_natCast]
  have hn1 : (1 : ℝ) < n := by exact_mod_cast hn
  have hlog : 0 < Real.log n := Real.log_pos hn1
  have hln : (ln (number (Float.ofNat n))).real x = Real.log n := by
    rw [← hvalue]
    rfl
  constructor
  · have hbase : IsDefined x (ln (number (Float.ofNat n))) := by
      apply isDefined_ln
      rw [hvalue]
      positivity
    have hproduct : (binary .mul e (ln (number (Float.ofNat n)))).real x ≠ 0 := by
      rw [real, hln]
      positivity
    refine everywhere_binary.mpr ⟨hproduct, everywhere_number (by decide),
      everywhere_binary.mpr ⟨trivial, he, everywhere_call.mpr ⟨hbase, ?_⟩⟩⟩
    exact everywhere_number (isFinite_ofNat hn')
  · refine ((Real.hasDerivAt_log h.ne').div_const (Real.log n)).congr_deriv ?_
    rw [real, real, hln, real_number, exact_one]
    field_simp
    norm_num

/-- **The rules for calls.** -/
theorem exists_outerDerivative {name : String} {base : Option ℤ} (node : Expr)
    (hel : IsElementary (call name base e)) (hdomain : InDomain name (e.real x))
    (he : e.Everywhere (IsDefined x)) :
    ∃ outer, outerDerivative node name base e = .ok outer ∧
      IsOuterDerivative x name base e outer := by
  rcases hel with rfl | rfl | rfl | rfl | ⟨rfl, b, rfl, hb, hb'⟩
  · exact ⟨_, rfl, outerDerivative_sin he⟩
  · exact ⟨_, rfl, outerDerivative_cos he⟩
  · exact ⟨_, rfl, outerDerivative_tan he (hdomain.2 rfl)⟩
  · exact ⟨_, rfl, outerDerivative_ln he (hdomain.1 (Or.inl rfl))⟩
  · obtain ⟨n, rfl⟩ := Int.eq_ofNat_of_zero_le (show 0 ≤ b by omega)
    have hn : 2 ≤ n := by exact_mod_cast hb
    have hn' : n ≤ 2 ^ 53 := by exact_mod_cast hb'
    have hbase : checkedBase node (some (n : ℤ)) = .ok (n : ℤ) :=
      if_neg (by omega)
    refine ⟨_, ?_, outerDerivative_log he (hdomain.1 (Or.inr rfl)) hn hn'⟩
    rw [outerDerivative, if_pos rfl, hbase]
    show (ofInt? n >>= _) = _
    rw [ofInt?_of_le hn']
    rfl

/-! ## Whole expressions -/

theorem everywhere_isDefined {t : Expr} (hfin : t.Everywhere HasFiniteValue)
    (hel : t.Everywhere IsElementary) (hreg : t.Everywhere (IsRegular x)) :
    t.Everywhere (IsDefined x) := fun n hn =>
  isDefined_of_isRegular (hfin n hn) (hel n hn) (hreg n hn)

theorem exists_derivative {t : Expr} (hfin : t.Everywhere HasFiniteValue)
    (hel : t.Everywhere IsElementary) (hreg : t.Everywhere (IsRegular x)) :
    ∃ d, t.derivative = .ok d ∧ d.Everywhere (IsDefined x) ∧ HasDerivAt t.real (d.real x) x := by
  induction t with
  | const c =>
    refine ⟨_, rfl, everywhere_number (by decide), ?_⟩
    rw [real_number, exact_of_beq_zero zero_beq_zero, Rat.cast_zero]
    exact hasDerivAt_const x _
  | var =>
    refine ⟨_, rfl, everywhere_number (by decide), ?_⟩
    rw [real_number, exact_one, Rat.cast_one]
    exact hasDerivAt_id x
  | unary op e ih =>
    obtain ⟨d, hd, hdefined, hderiv⟩ := ih (everywhere_unary.mp hfin).2 (everywhere_unary.mp hel).2
      (everywhere_unary.mp hreg).2
    cases op with
    | negate =>
      refine ⟨unary .negate d, ?_, everywhere_unary.mpr ⟨trivial, hdefined⟩, hderiv.neg⟩
      rw [derivative, hd]
      rfl
    | keep =>
      refine ⟨d, ?_, hdefined, hderiv⟩
      rw [derivative, hd]
  | binary op l r ihl ihr =>
    obtain ⟨-, hfinl, hfinr⟩ := everywhere_binary.mp hfin
    obtain ⟨-, hell, helr⟩ := everywhere_binary.mp hel
    obtain ⟨hregular, hregl, hregr⟩ := everywhere_binary.mp hreg
    obtain ⟨l', hl', hdefl, hderivl⟩ := ihl hfinl hell hregl
    obtain ⟨r', hr', hdefr, hderivr⟩ := ihr hfinr helr hregr
    refine ⟨operationDerivative op l r l' r', ?_, ?_, hasDerivAt_operation hderivl hderivr hregular⟩
    · rw [derivative, hl', hr']
      rfl
    · exact isDefined_operation (everywhere_isDefined hfinl hell hregl)
        (everywhere_isDefined hfinr helr hregr) hdefl hdefr hregular
  | call name base e ih =>
    obtain ⟨-, hfine⟩ := everywhere_call.mp hfin
    obtain ⟨helementary, hele⟩ := everywhere_call.mp hel
    obtain ⟨hdomain, hrege⟩ := everywhere_call.mp hreg
    obtain ⟨e', he', hdefe, hderive⟩ := ih hfine hele hrege
    obtain ⟨outer, houter, hdefined, hderiv⟩ := exists_outerDerivative (call name base e)
      helementary hdomain (everywhere_isDefined hfine hele hrege)
    refine ⟨binary .mul outer e', ?_, everywhere_binary.mpr ⟨trivial, hdefined, hdefe⟩, ?_⟩
    · rw [derivative, he']
      show (outerDerivative _ name base e >>= _) = _
      rw [houter]
      rfl
    · exact hderiv.comp x hderive

/-! ## Around a point -/

theorem eventually_isRegular_operation {op : BinaryOp} (hl : ContinuousAt l.real x)
    (hr : ContinuousAt r.real x) (h : IsRegular x (binary op l r)) :
    ∀ᶠ y in nhds x, IsRegular y (binary op l r) := by
  cases op with
  | div => exact hr.eventually_ne h
  | pow => exact hl.eventually_const_lt h
  | _ => exact Filter.Eventually.of_forall fun _ => trivial

theorem eventually_inDomain {name : String} (he : ContinuousAt e.real x)
    (h : InDomain name (e.real x)) : ∀ᶠ y in nhds x, InDomain name (e.real y) := by
  refine Filter.Eventually.and ?_ ?_
  · by_cases hname : name = "ln" ∨ name = "log"
    · exact (he.eventually_const_lt (h.1 hname)).mono fun _ hpos _ => hpos
    · exact Filter.Eventually.of_forall fun _ hname' => absurd hname' hname
  · by_cases hname : name = "tan"
    · have hcos : ContinuousAt (fun y => Real.cos (e.real y)) x :=
        Real.continuous_cos.continuousAt.comp he
      exact (hcos.eventually_ne (h.2 hname)).mono fun _ hne _ => hne
    · exact Filter.Eventually.of_forall fun _ hname' => absurd hname' hname

/-- What is regular at a point is regular around it. -/
theorem eventually_isRegular {t : Expr} (hfin : t.Everywhere HasFiniteValue)
    (hel : t.Everywhere IsElementary) (hreg : t.Everywhere (IsRegular x)) :
    ∀ᶠ y in nhds x, t.Everywhere (IsRegular y) := by
  induction t with
  | const c => exact Filter.Eventually.of_forall fun _ => everywhere_const.mpr trivial
  | var => exact Filter.Eventually.of_forall fun _ => everywhere_var.mpr trivial
  | unary op e ih =>
    have he := ih (everywhere_unary.mp hfin).2 (everywhere_unary.mp hel).2
      (everywhere_unary.mp hreg).2
    exact he.mono fun y hy => everywhere_unary.mpr ⟨trivial, hy⟩
  | binary op l r ihl ihr =>
    obtain ⟨-, hfinl, hfinr⟩ := everywhere_binary.mp hfin
    obtain ⟨-, hell, helr⟩ := everywhere_binary.mp hel
    obtain ⟨hregular, hregl, hregr⟩ := everywhere_binary.mp hreg
    obtain ⟨_, -, -, hl⟩ := exists_derivative hfinl hell hregl
    obtain ⟨_, -, -, hr⟩ := exists_derivative hfinr helr hregr
    filter_upwards [eventually_isRegular_operation hl.continuousAt hr.continuousAt hregular,
      ihl hfinl hell hregl, ihr hfinr helr hregr] with y hy hyl hyr
    exact everywhere_binary.mpr ⟨hy, hyl, hyr⟩
  | call name base e ih =>
    obtain ⟨-, hfine⟩ := everywhere_call.mp hfin
    obtain ⟨-, hele⟩ := everywhere_call.mp hel
    obtain ⟨hdomain, hrege⟩ := everywhere_call.mp hreg
    obtain ⟨_, -, -, he⟩ := exists_derivative hfine hele hrege
    filter_upwards [eventually_inDomain he.continuousAt hdomain, ih hfine hele hrege] with y hy hye
    exact everywhere_call.mpr ⟨hy, hye⟩

/-- **The derivative of an expression is its derivative.** Where an expression is regular, the
function that it stands for is defined around that point, `derivative` gives an expression that is
defined there, and the value of that expression is the derivative. -/
theorem derivative_correct {t : Expr} {x₀ : ℝ} (hfin : t.Everywhere HasFiniteValue)
    (hel : t.Everywhere IsElementary) (hreg : t.Everywhere (IsRegular x₀)) :
    (∀ᶠ y in nhds x₀, t.Everywhere (IsDefined y)) ∧
    ∃ d, t.derivative = .ok d ∧ d.Everywhere (IsDefined x₀) ∧
      HasDerivAt t.real (d.real x₀) x₀ := by
  refine ⟨?_, exists_derivative hfin hel hreg⟩
  filter_upwards [eventually_isRegular hfin hel hreg] with y hy
  exact everywhere_isDefined hfin hel hy

theorem derivative_correct_log_div_power :
    ∃ d, (binary .div (call "log" (some 10) var) (binary .pow var var)).derivative = .ok d ∧
      d.Everywhere (IsDefined 2) ∧
      HasDerivAt (binary .div (call "log" (some 10) var) (binary .pow var var)).real
        (d.real 2) 2 := by
  refine (derivative_correct ?_ ?_ ?_).2
  · simp [HasFiniteValue]
  · simp [IsElementary]
  · simp [IsRegular, InDomain, real]

end Expr

end SymCalc
