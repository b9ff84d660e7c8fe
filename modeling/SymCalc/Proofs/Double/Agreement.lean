import SymCalc.Double.Elementary
import SymCalc.Proofs.Double.Comparison
import SymCalc.Proofs.Double.Rounding

/-!
# Arithmetic up to the sign of zero

Operations on doubles respect `Agree`, as long as no infinity comes of a zero, and the laws of
zero and one hold up to it. Infinities and not-a-number are no exceptions, but for the law that a
product with zero is zero.

* `zero_add`, `add_zero`, `sub_zero`, `mul_one`, `one_mul`, `div_one`, `pow_one`, … — the laws.
* `Agree.add`, `Agree.sub`, `Agree.mul`, `Agree.div`, `Agree.pow`, … — the operations.

A law that drops a zero shows at once that the sign of that zero does not matter, so most of the
operations follow from the laws.
-/

namespace SymCalc.Double

open Float.Model UnpackedFloat

variable {x y x' y' : Float}

/-! ## Zeros and finite doubles -/

theorem eq_of_beq_zero (h : (x == 0.0) = true) : x = 0.0 ∨ x = -0.0 := by
  obtain ⟨s, hs⟩ := beq_zero_iff.mp h
  cases s with
  | positive => exact Or.inl (parts_injective hs)
  | negative => exact Or.inr (parts_injective hs)

theorem isFinite_of_agree (h : Agree x y) (hx : x.isFinite) : y.isFinite := by
  rcases h with rfl | ⟨-, hy⟩
  · exact hx
  · obtain ⟨s, hs⟩ := beq_zero_iff.mp hy
    show (parts y).isFinite
    rw [hs]
    rfl

/-- A finite double is a zero or not. -/
theorem parts_of_finite (h : x.isFinite) :
    (∃ s, parts x = .zero s) ∨ ∃ s m e hm, parts x = .finite s m e hm := by
  have h : (parts x).isFinite := h
  cases hx : parts x with
  | notANumber => simp [hx, UnpackedFloat.isFinite] at h
  | infinity s => simp [hx, UnpackedFloat.isFinite] at h
  | zero s => exact Or.inl ⟨s, rfl⟩
  | finite s m e hm => exact Or.inr ⟨s, m, e, hm, rfl⟩

theorem parts_of_not_finite (h : ¬x.isFinite) :
    parts x = .notANumber ∨ ∃ s, parts x = .infinity s := by
  have h : ¬(parts x).isFinite := h
  cases hx : parts x with
  | notANumber => exact Or.inl rfl
  | infinity s => exact Or.inr ⟨s, rfl⟩
  | _ => simp [hx, UnpackedFloat.isFinite] at h

theorem zero_beq_zero : ((0.0 : Float) == 0.0) = true := by decide

theorem negZero_beq_zero : ((-0.0 : Float) == 0.0) = true := by decide

theorem abs_lt_of_agree {ε : Float} (h : Agree x y) (hx : x.abs < ε) : y.abs < ε := by
  rcases h with rfl | ⟨hzero, hzero'⟩
  · exact hx
  · rcases eq_of_beq_zero hzero with rfl | rfl <;> rcases eq_of_beq_zero hzero' with rfl | rfl <;>
      exact hx

/-- A function respects agreement if it does so at zero. -/
theorem Agree.congr (h : Agree x y) (f : Float → Float) (hzero : Agree (f 0.0) (f (-0.0))) :
    Agree (f x) (f y) := by
  rcases h with rfl | ⟨hx, hy⟩
  · exact Agree.refl _
  · rcases eq_of_beq_zero hx with rfl | rfl
    · rcases eq_of_beq_zero hy with rfl | rfl
      · exact Agree.refl _
      · exact hzero
    · rcases eq_of_beq_zero hy with rfl | rfl
      · exact hzero.symm
      · exact Agree.refl _

theorem eq_of_agree (h : Agree x y) (hx : ¬(x == 0.0) = true) : x = y := by
  rcases h with rfl | ⟨hx', -⟩
  · rfl
  · exact absurd hx' hx

/-! ## Sums and differences -/

theorem add_zeros (s t : Sign) :
    ∃ r, UnpackedFloat.add .binary64 (.zero s) (.zero t) = .zero r := by
  rw [UnpackedFloat.add]
  split_ifs
  · exact ⟨s, rfl⟩
  · exact ⟨.positive, rfl⟩

theorem sub_zeros (s t : Sign) :
    ∃ r, UnpackedFloat.sub .binary64 (.zero s) (.zero t) = .zero r := by
  rw [UnpackedFloat.sub]
  split_ifs
  · exact ⟨s, rfl⟩
  · exact ⟨.positive, rfl⟩

theorem agree_of_zeros {u : UnpackedFloat} {s : Sign} (hu : ∃ r, u = .zero r)
    (hx : parts x = .zero s) : Agree (ofParts u) x := by
  obtain ⟨r, rfl⟩ := hu
  exact Or.inr ⟨beq_zero_iff.mpr ⟨r, parts_ofParts trivial⟩, beq_zero_iff.mpr ⟨s, hx⟩⟩

theorem agree_of_parts {u : UnpackedFloat} (hx : parts x = u) : Agree (ofParts u) x := by
  rw [← hx, ofParts_parts]
  exact Agree.refl x

theorem zero_add (hx : (x == 0.0) = true) (y : Float) : Agree (x + y) y := by
  obtain ⟨s, hs⟩ := beq_zero_iff.mp hx
  rw [add_eq, hs]
  cases hy : parts y with
  | zero t => exact agree_of_zeros (add_zeros s t) hy
  | _ => exact agree_of_parts hy

theorem add_zero (x : Float) (hy : (y == 0.0) = true) : Agree (x + y) x := by
  obtain ⟨t, ht⟩ := beq_zero_iff.mp hy
  rw [add_eq, ht]
  cases hx : parts x with
  | zero s => exact agree_of_zeros (add_zeros s t) hx
  | _ => exact agree_of_parts hx

theorem sub_zero (x : Float) (hy : (y == 0.0) = true) : Agree (x - y) x := by
  obtain ⟨t, ht⟩ := beq_zero_iff.mp hy
  rw [sub_eq, ht]
  cases hx : parts x with
  | zero s => exact agree_of_zeros (sub_zeros s t) hx
  | _ => exact agree_of_parts hx

theorem zero_sub (hx : (x == 0.0) = true) (y : Float) : Agree (x - y) (-y) := by
  obtain ⟨s, hs⟩ := beq_zero_iff.mp hx
  have hneg := parts_neg y
  rw [sub_eq, hs]
  cases hy : parts y with
  | zero t =>
    rw [hy] at hneg
    exact agree_of_zeros (sub_zeros s t) hneg
  | _ =>
    rw [hy] at hneg
    exact agree_of_parts hneg

theorem Agree.neg (h : Agree x x') : Agree (-x) (-x') :=
  h.congr (fun a => -a) (Or.inr ⟨by decide, by decide⟩)

theorem Agree.add (hx : Agree x x') (hy : Agree y y') : Agree (x + y) (x' + y') := by
  have hleft : Agree (0.0 + y) (-0.0 + y) :=
    (zero_add zero_beq_zero y).trans (zero_add negZero_beq_zero y).symm
  have hright : Agree (x' + 0.0) (x' + -0.0) :=
    (add_zero x' zero_beq_zero).trans (add_zero x' negZero_beq_zero).symm
  exact (hx.congr (· + y) hleft).trans (hy.congr (x' + ·) hright)

theorem Agree.sub (hx : Agree x x') (hy : Agree y y') : Agree (x - y) (x' - y') := by
  have hleft : Agree (0.0 - y) (-0.0 - y) :=
    (zero_sub zero_beq_zero y).trans (zero_sub negZero_beq_zero y).symm
  have hright : Agree (x' - 0.0) (x' - -0.0) :=
    (sub_zero x' zero_beq_zero).trans (sub_zero x' negZero_beq_zero).symm
  exact (hx.congr (· - y) hleft).trans (hy.congr (x' - ·) hright)

/-! ## Products and quotients -/

theorem mul_zeros_left (s : Sign) {v : UnpackedFloat} (hv : v.isFinite) :
    ∃ r, UnpackedFloat.mul .binary64 (.zero s) v = .zero r := by
  cases v with
  | zero t => exact ⟨s * t, rfl⟩
  | finite t m e hm => exact ⟨s * t, rfl⟩
  | _ => cases hv

theorem mul_zeros_right {u : UnpackedFloat} (hu : u.isFinite) (t : Sign) :
    ∃ r, UnpackedFloat.mul .binary64 u (.zero t) = .zero r := by
  cases u with
  | zero s => exact ⟨s * t, rfl⟩
  | finite s m e hm => exact ⟨s * t, rfl⟩
  | _ => cases hu

theorem zero_mul (hx : (x == 0.0) = true) (hy : y.isFinite) : (x * y == 0.0) = true := by
  obtain ⟨s, hs⟩ := beq_zero_iff.mp hx
  obtain ⟨r, hr⟩ := mul_zeros_left s (v := parts y) hy
  rw [mul_eq, hs, hr]
  exact beq_zero_iff.mpr ⟨r, parts_ofParts trivial⟩

theorem mul_zero (hx : x.isFinite) (hy : (y == 0.0) = true) : (x * y == 0.0) = true := by
  obtain ⟨t, ht⟩ := beq_zero_iff.mp hy
  obtain ⟨r, hr⟩ := mul_zeros_right (u := parts x) hx t
  rw [mul_eq, ht, hr]
  exact beq_zero_iff.mpr ⟨r, parts_ofParts trivial⟩

theorem not_isFinite_notANumber : ¬(ofParts .notANumber).isFinite := by decide

/-- The product of a zero and what is not finite is not a number. -/
theorem isFinite_of_zero_mul (hx : (x == 0.0) = true) (h : (x * y).isFinite) : y.isFinite := by
  by_contra hy
  obtain ⟨s, hs⟩ := beq_zero_iff.mp hx
  rw [mul_eq, hs] at h
  rcases parts_of_not_finite hy with hy | ⟨t, hy⟩ <;> rw [hy] at h <;>
    exact not_isFinite_notANumber h

theorem isFinite_of_mul_zero (hy : (y == 0.0) = true) (h : (x * y).isFinite) : x.isFinite := by
  by_contra hx
  obtain ⟨s, hs⟩ := beq_zero_iff.mp hy
  rw [mul_eq, hs] at h
  rcases parts_of_not_finite hx with hx | ⟨t, hx⟩ <;> rw [hx] at h <;>
    exact not_isFinite_notANumber h

/-- A finite product with zero is zero. -/
theorem mul_beq_zero (h : (x == 0.0) = true ∨ (y == 0.0) = true) (hfin : (x * y).isFinite) :
    (x * y == 0.0) = true := by
  rcases h with hx | hy
  · exact zero_mul hx (isFinite_of_zero_mul hx hfin)
  · exact mul_zero (isFinite_of_mul_zero hy hfin) hy

theorem zero_div (hx : (x == 0.0) = true) (hy : y.isFinite) (hne : ¬(y == 0.0) = true) :
    (x / y == 0.0) = true := by
  obtain ⟨s, hs⟩ := beq_zero_iff.mp hx
  rcases parts_of_finite hy with ⟨t, ht⟩ | ⟨t, m, e, hm, ht⟩
  · exact absurd (beq_zero_iff.mpr ⟨t, ht⟩) hne
  · rw [div_eq, hs, ht]
    exact beq_zero_iff.mpr ⟨s / t, parts_ofParts trivial⟩

theorem agree_zeros_mul (y : Float) : Agree (0.0 * y) (-0.0 * y) := by
  by_cases hy : y.isFinite
  · exact Or.inr ⟨zero_mul zero_beq_zero hy, zero_mul negZero_beq_zero hy⟩
  · rw [mul_eq, mul_eq]
    rcases parts_of_not_finite hy with h | ⟨s, h⟩ <;> rw [h] <;> exact Agree.refl _

theorem agree_mul_zeros (x : Float) : Agree (x * 0.0) (x * -0.0) := by
  by_cases hx : x.isFinite
  · exact Or.inr ⟨mul_zero hx zero_beq_zero, mul_zero hx negZero_beq_zero⟩
  · rw [mul_eq, mul_eq]
    rcases parts_of_not_finite hx with h | ⟨s, h⟩ <;> rw [h] <;> exact Agree.refl _

theorem Agree.mul (hx : Agree x x') (hy : Agree y y') : Agree (x * y) (x' * y') :=
  (hx.congr (· * y) (agree_zeros_mul y)).trans (hy.congr (x' * ·) (agree_mul_zeros x'))

theorem agree_zeros_div (hne : ¬(y == 0.0) = true) : Agree (0.0 / y) (-0.0 / y) := by
  by_cases hy : y.isFinite
  · exact Or.inr ⟨zero_div zero_beq_zero hy hne, zero_div negZero_beq_zero hy hne⟩
  · rcases parts_of_not_finite hy with h | ⟨s, h⟩
    · rw [div_eq, div_eq, h]
      exact Agree.refl _
    · have hzero : ∀ t : Sign, (ofParts (.zero t) == 0.0) = true := fun t =>
        beq_zero_iff.mpr ⟨t, parts_ofParts trivial⟩
      rw [div_eq, div_eq, h]
      exact Or.inr ⟨hzero _, hzero _⟩

/-- Divisors that agree are the same, unless they are zeros. -/
theorem Agree.div (hx : Agree x x') (hy : Agree y y') (hne : ¬(y == 0.0) = true) :
    Agree (x / y) (x' / y') := by
  rw [← eq_of_agree hy hne]
  exact hx.congr (· / y) (agree_zeros_div hne)

theorem parts_one : parts 1.0 = .finite .positive (2 ^ 52) (-52) (by decide) := rfl

theorem one_value : ((2 ^ 52 : ℕ) : ℚ) * 2 ^ (-52 : ℤ) = 1 := by
  norm_num

theorem sign_mul_positive (s : Sign) : s * .positive = s := by
  cases s <;> rfl

theorem positive_mul_sign (s : Sign) : .positive * s = s := by
  cases s <;> rfl

theorem sign_div_positive (s : Sign) : s / .positive = s := by
  cases s <;> rfl

theorem mul_one (x : Float) : x * 1.0 = x := by
  have hcanonical := canonical_parts x
  have h : UnpackedFloat.mul .binary64 (parts x) (parts 1.0) = parts x := by
    rw [parts_one]
    cases hx : parts x with
    | notANumber => rfl
    | infinity s => rw [UnpackedFloat.mul, sign_mul_positive]
    | zero s => rw [UnpackedFloat.mul, sign_mul_positive]
    | finite s m e hm =>
      rw [hx] at hcanonical
      rw [mul_exact s .positive hcanonical (by omega) (by rw [one_value]; ring), sign_mul_positive]
  rw [mul_eq, h, ofParts_parts]

theorem one_mul (x : Float) : 1.0 * x = x := by
  have hcanonical := canonical_parts x
  have h : UnpackedFloat.mul .binary64 (parts 1.0) (parts x) = parts x := by
    rw [parts_one]
    cases hx : parts x with
    | notANumber => rfl
    | infinity s => rw [UnpackedFloat.mul, positive_mul_sign]
    | zero s => rw [UnpackedFloat.mul, positive_mul_sign]
    | finite s m e hm =>
      rw [hx] at hcanonical
      rw [mul_exact .positive s hcanonical (by omega) (by rw [one_value]; ring), positive_mul_sign]
  rw [mul_eq, h, ofParts_parts]

theorem div_one (x : Float) : x / 1.0 = x := by
  have hcanonical := canonical_parts x
  have h : UnpackedFloat.div .binary64 (parts x) (parts 1.0) = parts x := by
    rw [parts_one]
    cases hx : parts x with
    | notANumber => rfl
    | infinity s => rw [UnpackedFloat.div, sign_div_positive]
    | zero s => rw [UnpackedFloat.div, sign_div_positive]
    | finite s m e hm =>
      rw [hx] at hcanonical
      rw [div_exact s .positive hcanonical (by rw [one_value]; ring), sign_div_positive]
  rw [div_eq, h, ofParts_parts]

theorem neg_neg (x : Float) : - -x = x := by
  apply parts_injective
  rw [parts_neg, parts_neg]
  cases parts x with
  | notANumber => rfl
  | infinity s => cases s <;> rfl
  | zero s => cases s <;> rfl
  | finite s m e hm => cases s <;> rfl

/-! ## Powers -/

theorem isNaN_of_finite (h : x.isFinite) : x.isNaN = false := by
  show (parts x).isNaN = false
  rcases parts_of_finite h with ⟨s, hs⟩ | ⟨s, m, e, hm, hs⟩ <;> rw [hs] <;> rfl

theorem isInf_of_finite (h : x.isFinite) : x.isInf = false := by
  show (parts x).isInf = false
  rcases parts_of_finite h with ⟨s, hs⟩ | ⟨s, m, e, hm, hs⟩ <;> rw [hs] <;> rfl

theorem eq_of_beq_one (h : (x == 1.0) = true) : x = 1.0 := by
  rw [beq_eq, beq_iff_ne_notANumber_and_eq, parts_one] at h
  obtain ⟨-, -, h | ⟨-, h⟩ | ⟨-, h⟩⟩ := h
  · exact parts_injective h
  · cases h
  · cases h

theorem pow_zero (x : Float) (hy : (y == 0.0) = true) : pow x y = 1.0 := by
  rw [pow, if_pos hy]

theorem positivePow_one (x : Float) : positivePow x 1.0 = x := by
  rw [positivePow]
  split_ifs with h
  · exact (eq_of_beq_one h).symm
  · rfl
  · exact absurd (by decide : ((1.0 : Float) == 1.0) = true) ‹_›

theorem infinitePow_one (x : Float) : infinitePow x 1.0 = x := by
  have hpos : (0.0 : Float) < 1.0 := by decide
  have hodd : isOdd 1.0 = true := by decide
  rw [infinitePow, if_pos hpos, if_pos hodd]

theorem negativePow_one (x : Float) : negativePow x 1.0 = x := by
  have hwhole : isWhole 1.0 = true := by decide
  have hodd : isOdd 1.0 = true := by decide
  rw [negativePow, if_pos hwhole]
  dsimp only
  rw [if_pos hodd, positivePow_one, neg_neg]

theorem pow_one (x : Float) : pow x 1.0 = x := by
  have hne : ¬((1.0 : Float) == 0.0) = true := by decide
  have hnan : ¬(1.0 : Float).isNaN = true := by decide
  have hinf : ¬(1.0 : Float).isInf = true := by decide
  rw [pow, if_neg hne, if_neg hnan, if_neg hinf]
  split_ifs with hxnan hxinf hzero hneg
  · rfl
  · exact infinitePow_one x
  · rfl
  · exact negativePow_one x
  · exact positivePow_one x

theorem pow_of_beq_zero [PowerLibrary] (hx : (x == 0.0) = true) (hy : y.isFinite)
    (hne : ¬(y == 0.0) = true) : pow x y = zeroPow x y := by
  have hynan : ¬y.isNaN = true := Bool.eq_false_iff.mp (isNaN_of_finite hy)
  have hyinf : ¬y.isInf = true := Bool.eq_false_iff.mp (isInf_of_finite hy)
  have hxfin : x.isFinite := by
    rcases eq_of_beq_zero hx with rfl | rfl <;> decide
  have hxnan : ¬x.isNaN = true := Bool.eq_false_iff.mp (isNaN_of_finite hxfin)
  have hxinf : ¬x.isInf = true := Bool.eq_false_iff.mp (isInf_of_finite hxfin)
  rw [pow, if_neg hne, if_neg hxnan, if_neg hynan, if_neg hyinf, if_neg hxinf, if_pos hx]

theorem zeroPow_of_nonneg (hx : (x == 0.0) = true) (hy : ¬y < 0.0) :
    (zeroPow x y == 0.0) = true := by
  rw [zeroPow, if_neg hy]
  split_ifs
  · exact hx
  · decide

/-- The only infinite powers of a zero have exponents below zero. -/
theorem nonneg_of_isFinite_zeroPow (hx : (x == 0.0) = true) (h : (zeroPow x y).isFinite) :
    ¬y < 0.0 := by
  intro hy
  have hinf : ¬infinity.isFinite = true := by decide
  rw [zeroPow, if_pos hy] at h
  split_ifs at h
  · rcases eq_of_beq_zero hx with rfl | rfl
    · exact absurd h (by decide)
    · exact absurd h (by decide)
  · exact hinf h

/-- Powers of zeros are the same, unless they are reciprocals of odd powers. -/
theorem agree_zeroPow (hx : (x == 0.0) = true) (hx' : (x' == 0.0) = true)
    (hsign : y < 0.0 → isOdd y → x' = x) : Agree (zeroPow x y) (zeroPow x' y) := by
  by_cases hneg : y < 0.0
  · by_cases hodd : isOdd y
    · rw [hsign hneg hodd]
      exact Agree.refl _
    · rw [zeroPow, zeroPow, if_pos hneg, if_neg hodd, if_pos hneg, if_neg hodd]
      exact Agree.refl _
  · exact Or.inr ⟨zeroPow_of_nonneg hx hneg, zeroPow_of_nonneg hx' hneg⟩

/-- Only the magnitude of the base counts where the exponent is not finite. -/
theorem pow_zeros_of_not_finite (hy : ¬y.isFinite) : pow 0.0 y = pow (-0.0) y := by
  have hnan : ¬(0.0 : Float).isNaN = true := by decide
  have hnan' : ¬(-0.0 : Float).isNaN = true := by decide
  rw [pow, pow, if_neg hnan, if_neg hnan']
  by_cases hzero : (y == 0.0) = true
  · rw [if_pos hzero, if_pos hzero]
  rw [if_neg hzero, if_neg hzero]
  rcases parts_of_not_finite hy with h | ⟨s, h⟩
  · have hynan : y.isNaN = true := show (parts y).isNaN = true by rw [h]; rfl
    have hone : ¬((0.0 : Float) == 1.0) = true := by decide
    have hone' : ¬((-0.0 : Float) == 1.0) = true := by decide
    rw [if_pos hynan, if_pos hynan, if_neg hone, if_neg hone']
  · have hynan : ¬y.isNaN = true := show ¬(parts y).isNaN = true by rw [h]; exact Bool.false_ne_true
    have hyinf : y.isInf = true := show (parts y).isInf = true by rw [h]; rfl
    have habs : (0.0 : Float).abs = (-0.0 : Float).abs := by decide
    rw [if_neg hynan, if_neg hynan, if_pos hyinf, if_pos hyinf, powInfinite, powInfinite, habs]

/-- Only the reciprocals of odd powers tell the two zeros apart. -/
theorem Agree.pow (hx : Agree x x') (hy : Agree y y')
    (hsign : (x == 0.0) = true → y < 0.0 → isOdd y → x' = x) : Agree (pow x y) (pow x' y') := by
  by_cases hzero : (y == 0.0) = true
  · have hzero' : (y' == 0.0) = true := by
      rcases hy with rfl | ⟨-, hy'⟩
      · exact hzero
      · exact hy'
    rw [pow_zero x hzero, pow_zero x' hzero']
    exact Agree.refl _
  rw [← eq_of_agree hy hzero]
  by_cases hyfin : y.isFinite
  · rcases hx with rfl | ⟨hx, hx'⟩
    · exact Agree.refl _
    · rw [pow_of_beq_zero hx hyfin hzero, pow_of_beq_zero hx' hyfin hzero]
      exact agree_zeroPow hx hx' (hsign hx)
  · exact hx.congr (Double.pow · y) (Or.inl (pow_zeros_of_not_finite hyfin))

/-- A power that is finite is not the reciprocal of a zero. -/
theorem nonneg_of_isFinite_pow (hx : (x == 0.0) = true) (hy : y.isFinite)
    (h : (Double.pow x y).isFinite) : ¬y < 0.0 := by
  intro hneg
  have hne : ¬(y == 0.0) = true := by
    intro hzero
    obtain ⟨s, hs⟩ := beq_zero_iff.mp hzero
    rcases lt_zero_iff.mp hneg with hinf | ⟨m, e, hm, hfin⟩
    · rw [hs] at hinf
      cases hinf
    · rw [hs] at hfin
      cases hfin
  rw [pow_of_beq_zero hx hy hne] at h
  exact nonneg_of_isFinite_zeroPow hx h hneg

/-! ## Elementary functions -/

theorem Agree.sin (h : Agree x x') : Agree (sin x) (sin x') :=
  h.congr Double.sin (Or.inr ⟨by decide, by decide⟩)

theorem Agree.cos (h : Agree x x') : Agree (cos x) (cos x') :=
  h.congr Double.cos (Or.inl (by decide))

theorem Agree.tan (h : Agree x x') : Agree (tan x) (tan x') :=
  h.congr Double.tan (Or.inr ⟨by decide, by decide⟩)

theorem ln_eq_of_agree (h : Agree x x') : ln x = ln x' := by
  rcases h with rfl | ⟨hx, hx'⟩
  · rfl
  · rw [ln, ln, if_pos hx, if_pos hx']

end SymCalc.Double
