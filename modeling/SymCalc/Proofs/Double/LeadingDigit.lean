import SymCalc.Proofs.Decimal.Numeral
import SymCalc.Proofs.Double.Agreement

/-!
# Leading digits of rounded results

The leading binary digit of `m * 2^e` counts `2^(log2 m + e)`. Rounding moves it nowhere but up, as
long as it counts at least `2^-1074`, so a result that is not below the least double is not lost.

* `parts_round_cases`: a rounded magnitude is infinite, or its leading digit is at least the one
  before.
* `parts_ofNat_cases`: a positive whole number of any size is converted to an infinite double, or
  keeps its leading digit.
* `lt_of_isFinite_ofNat`: it lies below `2^1024` if the double is finite.
* `ofNat_mul_ne_zero` and `isNaN_ofNat_mul`: a positive whole number times a double is zero only if
  the double is, and it is a number if the double is one and the whole number is not too large.

The first shift of a rounding may leave a mantissa that the round bit carries over to `2^53`, which
is what the second one is for. Both are instances of `shiftToTargetExponent_cases`.
-/

namespace SymCalc.Double

open Float.Model UnpackedFloat

variable {m n m₁ m₂ : ℕ} {e e₁ e₂ : ℤ} {c : Float}

/-! ## Shifts -/

theorem mantissa_shiftRight (em : ExtendedMantissa) (k : ℕ) :
    (em >>> k).mantissa = em.mantissa / 2 ^ k := by
  show (k.repeat ExtendedMantissa.shiftRightOne em).mantissa = _
  induction k with
  | zero => simp [Nat.repeat]
  | succ k ih =>
    rw [Nat.repeat, pow_succ, ← Nat.div_div_eq_div_mul, ← ih]
    rfl

/-- Rounding never makes a mantissa smaller. -/
theorem le_roundedMantissa (em : ExtendedMantissa) : em.mantissa ≤ em.roundedMantissa := by
  obtain ⟨m, round, sticky⟩ := em
  cases round <;> cases sticky <;>
    simp [ExtendedMantissa.roundedMantissa, ExtendedMantissa.accuracy,
      Accuracy.roundToNearestEven]

theorem log2_mono (h : m ≤ n) : m.log2 ≤ n.log2 := by
  rw [Nat.log2_eq_log_two, Nat.log2_eq_log_two]
  exact Nat.log_mono_right h

/-- Enough digits for a double, or an exponent that is small enough to do with fewer. -/
def HasDigits (m : ℕ) (e : ℤ) : Prop :=
  52 ≤ m.log2 ∨ e ≤ -1074

/-- What the parts of a double must be like, but for a limit to the exponent. -/
structure Rounded (m : ℕ) (e : ℤ) : Prop where
  pos : 0 < m
  log2_le : m.log2 ≤ 52
  le_exponent : -1074 ≤ e
  hasDigits : HasDigits m e

/-- **A shift to the exponent of a double** leaves the leading digit where it is. -/
theorem shiftToTargetExponent_cases (hm : 0 < m) (hlead : -1074 ≤ (m.log2 : ℤ) + e)
    (hdigits : HasDigits m e) :
    ∃ em e', shiftToTargetExponent .binary64 m e .exact = (em, e') ∧ Rounded em.mantissa e' ∧
      (em.mantissa.log2 : ℤ) + e' = m.log2 + e := by
  -- the new exponent is `max (log2 m + e - 52) (-1074)`, so at most `log2 m` digits are shifted out
  obtain ⟨k, hk⟩ : ∃ k, (Format.binary64.targetExponent (totalExponent m e) - e).toNat = k :=
    ⟨_, rfl⟩
  have htarget : (max ((m.log2 : ℤ) + 1 + e - 53) (-1074) - e).toNat = k := hk
  have hlog : (m / 2 ^ k).log2 = m.log2 - k := by
    rw [Nat.log2_eq_log_two, Nat.log2_eq_log_two, Nat.log_div_base_pow]
  have hpos : 0 < m / 2 ^ k := by
    refine Nat.div_pos ?_ (by positivity)
    rw [← Nat.le_log2 hm.ne']
    omega
  refine ⟨ExtendedMantissa.ofMantissaAndAccuracy m .exact >>> k, e + k, ?_, ?_, ?_⟩
  · simp only [shiftToTargetExponent, shiftToExponent, hk]
  · rw [mantissa_shiftRight]
    show Rounded (m / 2 ^ k) (e + k)
    rw [HasDigits] at hdigits
    refine ⟨hpos, by omega, by omega, ?_⟩
    rw [HasDigits]
    omega
  · rw [mantissa_shiftRight]
    show ((m / 2 ^ k).log2 : ℤ) + (e + k) = m.log2 + e
    omega

/-! ## Rounding -/

/-- **Rounding moves the leading digit nowhere but up.** -/
theorem roundWithAccuracy_cases (s : Sign) (hm : 0 < m) (hlead : -1074 ≤ (m.log2 : ℤ) + e)
    (hdigits : HasDigits m e) :
    ∃ m' e' h, roundWithAccuracy .binary64 s m e .exact = .finite s m' e' h ∧ Rounded m' e' ∧
      (m.log2 : ℤ) + e ≤ m'.log2 + e' := by
  obtain ⟨em, e₁, hshift, hrounded, hlead₁⟩ := shiftToTargetExponent_cases hm hlead hdigits
  have hle := le_roundedMantissa em
  have hlog := log2_mono hle
  have hdigits₁ : HasDigits em.roundedMantissa e₁ := hrounded.hasDigits.imp_left (·.trans hlog)
  obtain ⟨em', e₂, hshift', hrounded', hlead₂⟩ :=
    shiftToTargetExponent_cases (hrounded.pos.trans_le hle) (by omega) hdigits₁
  refine ⟨em'.mantissa, e₂, hrounded'.pos, ?_, hrounded', by omega⟩
  rw [roundWithAccuracy, hshift]
  simp only [hshift']
  exact dif_neg hrounded'.pos.ne'

/-- A rounded magnitude is a double, or its exponent is too large and it counts as infinite. -/
theorem parts_ofParts_rounded (s : Sign) {h : 0 < m} (hm : Rounded m e) :
    parts (ofParts (.finite s m e h)) = .finite s m e h ∨
      parts (ofParts (.finite s m e h)) = .infinity s := by
  obtain ⟨hpos, hlog, hle, hdigits⟩ := hm
  have hlt : m < 2 ^ 53 := by
    rw [← Nat.log2_lt hpos.ne']
    omega
  by_cases he : e ≤ 971
  · have hnormal : 2 ^ 52 ≤ m ∨ e = -1074 := by
      rcases hdigits with hdigits | hdigits
      · exact Or.inl ((Nat.le_log2 hpos.ne').mp hdigits)
      · exact Or.inr (by omega)
    exact Or.inl (parts_ofParts ⟨hpos, hlt, hle, he, hnormal⟩)
  · have hpack : UnpackedFloat.pack .binary64 (.finite s m e h) =
        UnpackedFloat.pack .binary64 (.infinity s) := by
      rw [UnpackedFloat.pack]
      exact if_pos (show 2048 ≤ (e + 1023 + 52).toNat + 1 by omega)
    refine Or.inr ?_
    show UnpackedFloat.unpack .binary64 (UnpackedFloat.pack .binary64 (.finite s m e h)) = _
    rw [hpack]
    exact unpack_pack (u := .infinity s) trivial

/-- **A rounded magnitude is infinite or keeps its leading digit**, or has a higher one. -/
theorem parts_round_cases (s : Sign) (hm : 0 < m) (hlead : -1074 ≤ (m.log2 : ℤ) + e)
    (hdigits : HasDigits m e) :
    parts (ofParts (roundWithAccuracy .binary64 s m e .exact)) = .infinity s ∨
      ∃ m' e' h, parts (ofParts (roundWithAccuracy .binary64 s m e .exact)) = .finite s m' e' h ∧
        (m.log2 : ℤ) + e ≤ m'.log2 + e' := by
  obtain ⟨m', e', h, hround, hrounded, hle⟩ := roundWithAccuracy_cases s hm hlead hdigits
  rw [hround]
  rcases parts_ofParts_rounded s (h := h) hrounded with hparts | hparts
  · exact Or.inr ⟨m', e', h, hparts, hle⟩
  · exact Or.inl hparts

/-! ## Whole numbers of any size -/

/-- **A positive whole number is converted to infinity or keeps its leading digit**, or has a higher
one. -/
theorem parts_ofNat_cases (hn : 0 < n) :
    parts (Float.ofNat n) = .infinity .positive ∨
      ∃ m e h, parts (Float.ofNat n) = .finite .positive m e h ∧ (n.log2 : ℤ) ≤ m.log2 + e := by
  by_cases hsmall : n < 2 ^ 53
  · obtain ⟨m, e, h, hvalue⟩ := exists_magnitude hn hsmall.le
    refine Or.inr ⟨m, e, h.pos, parts_ofNat h hn hvalue, ?_⟩
    have hlead : (n.log2 : ℤ) + 0 = m.log2 + e := log2_add_eq hn h.pos (by simpa using hvalue)
    omega
  · have hpos : 0 < n <<< 53 * 10 ^ 0 := by
      rw [Nat.shiftLeft_eq]
      positivity
    have hlog : n.log2 + 53 ≤ (n <<< 53 * 10 ^ 0).log2 := by
      rw [Nat.le_log2 hpos.ne', Nat.shiftLeft_eq, pow_add, Nat.pow_zero, Nat.mul_one]
      exact Nat.mul_le_mul_right _ (Nat.log2_self_le hn.ne')
    have hround : UnpackedFloat.ofScientific .binary64 n 0 =
        roundWithAccuracy .binary64 .positive (n <<< 53 * 10 ^ 0) (-53 + 0) .exact := by
      rw [UnpackedFloat.ofScientific, dif_neg hn.ne', if_neg (by decide),
        if_neg (by show ¬(0 : ℤ) < -(2 ^ 11 + (n.log2 : ℤ)); omega), if_pos le_rfl]
      rfl
    rw [ofNat_of_large hsmall, hround]
    rcases parts_round_cases .positive hpos (e := -53 + 0) (by omega) (Or.inl (by omega)) with
      h | ⟨m, e, h, hparts, hle⟩
    · exact Or.inl h
    · exact Or.inr ⟨m, e, h, hparts, by omega⟩

/-- **A whole number whose double is finite** has no digit beyond those of a double. -/
theorem lt_of_isFinite_ofNat (h : (Float.ofNat n).isFinite) : n < 2 ^ 1024 := by
  rcases Nat.eq_zero_or_pos n with rfl | hn
  · positivity
  rw [← Nat.log2_lt hn.ne']
  have hfinite : (parts (Float.ofNat n)).isFinite := h
  have hcanonical := canonical_parts (Float.ofNat n)
  rcases parts_ofNat_cases hn with hparts | ⟨m, e, hm, hparts, hle⟩
  · rw [hparts] at hfinite
    cases hfinite
  · rw [hparts] at hcanonical
    have hmagnitude : Magnitude m e := hcanonical
    have hlog : m.log2 < 53 := (Nat.log2_lt hm.ne').mpr hmagnitude.lt
    have hexponent : e ≤ 971 := hmagnitude.exponent_le
    omega

/-! ## Multiples -/

theorem Magnitude.hasDigits (h : Magnitude m e) : HasDigits m e := by
  rcases h.normal with hnormal | rfl
  · exact Or.inl (log2_eq_of_normal hnormal h.lt).ge
  · exact Or.inr le_rfl

/-- The product of two magnitudes, one of them from one on. -/
theorem parts_product_cases (s : Sign) (h₁ : Magnitude m₁ e₁) (h₂ : Magnitude m₂ e₂)
    (hone : 0 ≤ (m₁.log2 : ℤ) + e₁) :
    parts (ofParts (roundWithAccuracy .binary64 s (m₁ * m₂) (e₁ + e₂) .exact)) = .infinity s ∨
      ∃ m e h, parts (ofParts (roundWithAccuracy .binary64 s (m₁ * m₂) (e₁ + e₂) .exact)) =
        .finite s m e h := by
  have hpos : 0 < m₁ * m₂ := Nat.mul_pos h₁.pos h₂.pos
  have hlog : m₁.log2 + m₂.log2 ≤ (m₁ * m₂).log2 := by
    rw [Nat.le_log2 hpos.ne', pow_add]
    exact Nat.mul_le_mul (Nat.log2_self_le h₁.pos.ne') (Nat.log2_self_le h₂.pos.ne')
  have hle := h₂.le_exponent
  have hdigits : HasDigits (m₁ * m₂) (e₁ + e₂) := by
    have hdigits₁ := h₁.hasDigits
    have hdigits₂ := h₂.hasDigits
    unfold HasDigits at hdigits₁ hdigits₂ ⊢
    omega
  rcases parts_round_cases s hpos (by omega) hdigits with h | ⟨m, e, h, hparts, -⟩
  · exact Or.inl h
  · exact Or.inr ⟨m, e, h, hparts⟩

/-- A number other than zero. -/
def IsNonzero (u : UnpackedFloat) : Prop :=
  ∃ s, u = .infinity s ∨ ∃ m e h, u = .finite s m e h

theorem isNonzero_parts_iff : IsNonzero (parts c) ↔ c.isNaN = false ∧ (c == 0.0) = false := by
  have hnan : c.isNaN = (parts c).isNaN := rfl
  rw [hnan, Bool.eq_false_iff (b := (c == 0.0)), ne_eq, beq_zero_iff]
  cases parts c with
  | notANumber => simp [IsNonzero, UnpackedFloat.isNaN]
  | zero s => simp [IsNonzero]
  | infinity s => simp [IsNonzero, UnpackedFloat.isNaN]
  | finite s m e h => simp [IsNonzero, UnpackedFloat.isNaN, h]

theorem isNonzero_ofNat_mul (hn : 0 < n) (hc : IsNonzero (parts c)) :
    IsNonzero (parts (Float.ofNat n * c)) := by
  have hcanonical := canonical_parts c
  have hcanonical' := canonical_parts (Float.ofNat n)
  have hinfinity (s : Sign) : IsNonzero (parts (ofParts (.infinity s))) :=
    ⟨s, Or.inl (parts_ofParts trivial)⟩
  obtain ⟨s, hc | ⟨m₂, e₂, h₂, hc⟩⟩ := hc <;>
    rcases parts_ofNat_cases hn with hn | ⟨m₁, e₁, h₁, hn, hlead⟩ <;>
    rw [mul_eq, hn, hc, UnpackedFloat.mul]
  · exact hinfinity _
  · exact hinfinity _
  · exact hinfinity _
  · rw [hc] at hcanonical
    rw [hn] at hcanonical'
    exact ⟨_, parts_product_cases _ hcanonical' hcanonical ((Int.natCast_nonneg _).trans hlead)⟩

/-- **A positive whole number times a double other than zero is not zero.** -/
theorem ofNat_mul_ne_zero (hn : 0 < n) (hc : (c == 0.0) = false) :
    (Float.ofNat n * c == 0.0) = false := by
  by_cases hnan : c.isNaN = false
  · exact (isNonzero_parts_iff.mp (isNonzero_ofNat_mul hn (isNonzero_parts_iff.mpr ⟨hnan, hc⟩))).2
  · have hparts : parts c = .notANumber := by
      have hnan : ¬(parts c).isNaN = false := hnan
      cases hc : parts c with
      | notANumber => rfl
      | _ =>
        rw [hc] at hnan
        exact absurd rfl hnan
    have hmul (u : UnpackedFloat) :
        UnpackedFloat.mul .binary64 u .notANumber = .notANumber := by
      cases u <;> rfl
    rw [mul_eq, hparts, hmul]
    decide

/-- **A positive whole number that is not too large, times a number, is a number.** -/
theorem isNaN_ofNat_mul (hn : 0 < n) (hfinite : (Float.ofNat n).isFinite)
    (hc : c.isNaN = false) : (Float.ofNat n * c).isNaN = false := by
  by_cases hzero : (c == 0.0) = true
  · obtain ⟨s, hs⟩ := beq_zero_iff.mp (mul_zero hfinite hzero)
    show (parts (Float.ofNat n * c)).isNaN = false
    rw [hs]
    rfl
  · have hnonzero := isNonzero_parts_iff.mpr ⟨hc, Bool.eq_false_iff.mpr hzero⟩
    exact (isNonzero_parts_iff.mp (isNonzero_ofNat_mul hn hnonzero)).1

end SymCalc.Double
