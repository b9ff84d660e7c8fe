import SymCalc.Proofs.Double.Packing

/-!
# Exact results

`exact x` is the rational number that a finite double stands for. Arithmetic on doubles rounds,
but a result that is itself the value of a double is not changed by rounding.

* `roundWithAccuracy_exact`: a magnitude that doubles have is rounded to itself, however many
  zero bits follow it.
* `div_exact`, `ofScientific_exact` and `exact_ofNat`: a quotient, a number in decimal notation
  and a whole number are the double with the same value, if there is one.

Only values are compared, so nothing needs to be said about the mantissas and exponents that a
computation goes through.
-/

namespace SymCalc.Double

open Float.Model UnpackedFloat

/-- The exact value of a finite double. The special values count as zero. -/
def exact (x : Float) : ℚ :=
  match parts x with
  | .finite s m e _ => s.apply m * 2 ^ e
  | _ => 0

theorem exact_of_parts {x : Float} {s : Sign} {m : ℕ} {e : ℤ} {hm : 0 < m}
    (h : parts x = .finite s m e hm) : exact x = s.apply m * 2 ^ e := by
  simp only [exact, h]

/-! ## Leading digits -/

theorem two_zpow_le {m : ℕ} (hm : 0 < m) (e : ℤ) : (2 : ℚ) ^ ((m.log2 : ℤ) + e) ≤ m * 2 ^ e := by
  rw [zpow_add₀ two_ne_zero, zpow_natCast]
  have h : ((2 ^ m.log2 : ℕ) : ℚ) ≤ m := Nat.cast_le.mpr (Nat.log2_self_le hm.ne')
  push_cast at h
  gcongr

theorem lt_two_zpow (m : ℕ) (e : ℤ) : (m : ℚ) * 2 ^ e < 2 ^ ((m.log2 : ℤ) + 1 + e) := by
  rw [zpow_add₀ two_ne_zero]
  have h : (m : ℚ) < ((2 ^ (m.log2 + 1) : ℕ) : ℚ) := Nat.cast_lt.mpr Nat.lt_log2_self
  push_cast at h
  rw [show (m.log2 : ℤ) + 1 = ((m.log2 + 1 : ℕ) : ℤ) by push_cast; ring, zpow_natCast]
  gcongr

/-- A value decides how far its leading digit is from the point. -/
theorem log2_add_eq {m m' : ℕ} {e e' : ℤ} (hm : 0 < m) (hm' : 0 < m')
    (h : (m : ℚ) * 2 ^ e = m' * 2 ^ e') : (m.log2 : ℤ) + e = m'.log2 + e' := by
  have h₁ := (two_zpow_le hm e).trans_lt (h ▸ lt_two_zpow m' e')
  have h₂ := (two_zpow_le hm' e').trans_lt (h ▸ lt_two_zpow m e)
  rw [zpow_lt_zpow_iff_right₀ one_lt_two] at h₁ h₂
  omega

theorem log2_lt (m : ℕ) (h : m < 2 ^ 53) : m.log2 < 53 := by
  by_cases hm : m = 0
  · simp [hm]
  · exact (Nat.log2_lt hm).mpr h

theorem Magnitude.target {m : ℕ} {e : ℤ} (h : Magnitude m e) :
    Format.binary64.targetExponent (totalExponent m e) = e := by
  have hlog := log2_lt m h.lt
  show max ((m.log2 : ℤ) + 1 + e - 53) (-1074) = e
  rcases h.normal with h₁ | rfl
  · have := log2_eq_of_normal h₁ h.lt
    have := h.le_exponent
    omega
  · omega

/-! ## Rounding -/

/-- Zero bits that are shifted out leave no trace. -/
theorem shiftRight_exact (m k : ℕ) :
    ExtendedMantissa.ofMantissaAndAccuracy (m * 2 ^ k) .exact >>> k =
      ExtendedMantissa.ofMantissaAndAccuracy m .exact := by
  show k.repeat ExtendedMantissa.shiftRightOne _ = _
  induction k generalizing m with
  | zero => simp [Nat.repeat]
  | succ k ih =>
    rw [Nat.repeat, show m * 2 ^ (k + 1) = m * 2 * 2 ^ k by ring, ih]
    simp [ExtendedMantissa.shiftRightOne, ExtendedMantissa.ofMantissaAndAccuracy]

theorem shiftToTargetExponent_exact {m M : ℕ} {e E : ℤ} (h : Magnitude m e) (hE : E ≤ e)
    (hM : (M : ℚ) * 2 ^ E = m * 2 ^ e) :
    shiftToTargetExponent .binary64 M E .exact =
      (ExtendedMantissa.ofMantissaAndAccuracy m .exact, e) := by
  obtain ⟨k, rfl⟩ : ∃ k : ℕ, E = e - k := ⟨(e - E).toNat, by omega⟩
  have hM' : M = m * 2 ^ k := by
    rw [zpow_sub₀ two_ne_zero, zpow_natCast] at hM
    field_simp at hM
    rw [mul_comm]
    exact_mod_cast hM
  have hpos : 0 < M := by
    rw [hM']
    have := h.pos
    positivity
  have htotal : totalExponent M (e - k) = totalExponent m e := by
    have := log2_add_eq hpos h.pos hM
    unfold totalExponent
    omega
  simp only [shiftToTargetExponent, htotal, h.target, shiftToExponent]
  rw [show (e - (e - k)).toNat = k by omega, hM', shiftRight_exact]
  congr 1
  omega

/-- **A value that a double has is rounded to itself.** -/
theorem roundWithAccuracy_exact {m M : ℕ} {e E : ℤ} (s : Sign) (h : Magnitude m e) (hE : E ≤ e)
    (hM : (M : ℚ) * 2 ^ E = m * 2 ^ e) :
    roundWithAccuracy .binary64 s M E .exact = .finite s m e h.pos := by
  have hround : (ExtendedMantissa.ofMantissaAndAccuracy m .exact).roundedMantissa = m := rfl
  rw [roundWithAccuracy, shiftToTargetExponent_exact h hE hM]
  simp only [hround, shiftToTargetExponent_exact h le_rfl rfl]
  exact dif_neg h.pos.ne'

theorem round_exact {m M : ℕ} {e E : ℤ} (s : Sign) (h : Magnitude m e) (hpos : 0 < M)
    (hM : (M : ℚ) * 2 ^ E = m * 2 ^ e) :
    UnpackedFloat.round .binary64 s M E = .finite s m e h.pos := by
  have htotal : totalExponent M E = totalExponent m e := by
    have := log2_add_eq hpos h.pos hM
    unfold totalExponent
    omega
  simp only [UnpackedFloat.round, htotal, h.target, decreaseExponent, Nat.shiftLeft_eq]
  apply roundWithAccuracy_exact s h (by omega)
  rw [← hM, zpow_sub₀ two_ne_zero, zpow_natCast]
  push_cast
  field_simp

/-! ## Products and quotients -/

theorem mul_exact {m m₁ m₂ : ℕ} {e e₁ e₂ : ℤ} {hm₁ : 0 < m₁} {hm₂ : 0 < m₂} (s₁ s₂ : Sign)
    (h : Magnitude m e) (he : e₁ + e₂ ≤ e)
    (hvalue : (m₁ : ℚ) * 2 ^ e₁ * (m₂ * 2 ^ e₂) = m * 2 ^ e) :
    UnpackedFloat.mul .binary64 (.finite s₁ m₁ e₁ hm₁) (.finite s₂ m₂ e₂ hm₂) =
      .finite (s₁ * s₂) m e h.pos := by
  apply roundWithAccuracy_exact _ h he
  rw [← hvalue, zpow_add₀ two_ne_zero]
  push_cast
  ring

theorem Magnitude.lt_two_zpow {m : ℕ} {e : ℤ} (h : Magnitude m e) :
    (m : ℚ) * 2 ^ e < 2 ^ (53 + e) := by
  have hlt : (m : ℚ) < 2 ^ (53 : ℤ) := by exact_mod_cast h.lt
  rw [zpow_add₀ two_ne_zero]
  gcongr

/-- The exponent of a quotient is not chosen too large: its leading digit is where that of `m * 2^e`
is, or one place before. -/
theorem targetExponent_quotient_le {m m₁ m₂ : ℕ} {e e₁ e₂ : ℤ} (h : Magnitude m e) (hm₁ : 0 < m₁)
    (hm₂ : 0 < m₂) (hvalue : (m₁ : ℚ) * 2 ^ e₁ = m * 2 ^ e * (m₂ * 2 ^ e₂)) :
    Format.binary64.targetExponent (totalExponent m₁ e₁ - totalExponent m₂ e₂) ≤ e := by
  have hlog : (2 : ℚ) ^ ((m₁.log2 : ℤ) + e₁) < 2 ^ (53 + e + ((m₂.log2 : ℤ) + 1 + e₂)) := by
    have hpos := h.pos
    calc (2 : ℚ) ^ ((m₁.log2 : ℤ) + e₁) ≤ m₁ * 2 ^ e₁ := two_zpow_le hm₁ e₁
      _ = m * 2 ^ e * (m₂ * 2 ^ e₂) := hvalue
      _ < 2 ^ (53 + e) * 2 ^ ((m₂.log2 : ℤ) + 1 + e₂) :=
        mul_lt_mul'' h.lt_two_zpow (lt_two_zpow m₂ e₂) (by positivity) (by positivity)
      _ = 2 ^ (53 + e + ((m₂.log2 : ℤ) + 1 + e₂)) := (zpow_add₀ two_ne_zero _ _).symm
  rw [zpow_lt_zpow_iff_right₀ one_lt_two] at hlog
  have hle := h.le_exponent
  show max ((m₁.log2 : ℤ) + 1 + e₁ - (m₂.log2 + 1 + e₂) - 53) (-1074) ≤ e
  omega

theorem div_exact {m m₁ m₂ : ℕ} {e e₁ e₂ : ℤ} {hm₁ : 0 < m₁} {hm₂ : 0 < m₂} (s₁ s₂ : Sign)
    (h : Magnitude m e) (hvalue : (m₁ : ℚ) * 2 ^ e₁ = m * 2 ^ e * (m₂ * 2 ^ e₂)) :
    UnpackedFloat.div .binary64 (.finite s₁ m₁ e₁ hm₁) (.finite s₂ m₂ e₂ hm₂) =
      .finite (s₁ / s₂) m e h.pos := by
  simp only [UnpackedFloat.div, divCore, Nat.shiftLeft_eq]
  set t := min (e₁ - e₂) (Format.binary64.targetExponent
    (totalExponent m₁ e₁ - totalExponent m₂ e₂)) with ht
  have hte : t ≤ e := (min_le_right _ _).trans (targetExponent_quotient_le h hm₁ hm₂ hvalue)
  obtain ⟨k, hk⟩ : ∃ k : ℕ, t = e - k := ⟨(e - t).toNat, by omega⟩
  obtain ⟨j, hj⟩ : ∃ j : ℕ, e₁ - e₂ - t = j := ⟨(e₁ - e₂ - t).toNat, by omega⟩
  have hm : m₁ * 2 ^ j = m * 2 ^ k * m₂ := by
    have h₁ : e₁ = j + (e - k) + e₂ := by omega
    rw [h₁, zpow_add₀ two_ne_zero, zpow_add₀ two_ne_zero, zpow_sub₀ two_ne_zero,
      zpow_natCast, zpow_natCast] at hvalue
    field_simp at hvalue
    rw [mul_comm m]
    exact_mod_cast hvalue
  rw [hj, Int.toNat_natCast, hm, Nat.mul_div_cancel _ hm₂, Nat.mul_mod_left]
  apply roundWithAccuracy_exact _ h hte
  rw [hk, zpow_sub₀ two_ne_zero, zpow_natCast]
  push_cast
  field_simp

/-! ## Decimal notation -/

theorem Magnitude.two_zpow_le {m : ℕ} {e : ℤ} (h : Magnitude m e) :
    (2 : ℚ) ^ e ≤ m * 2 ^ e := by
  have hpos : (1 : ℚ) ≤ m := by exact_mod_cast h.pos
  exact le_mul_of_one_le_left (by positivity) hpos

theorem ten_zpow (x : ℤ) : (10 : ℚ) ^ x = 2 ^ x * 5 ^ x := by
  rw [← mul_zpow]
  norm_num

/-- Powers of ten that are out of reach do not arise. -/
theorem Magnitude.decimalExponent_bounds {m d : ℕ} {e x : ℤ} (h : Magnitude m e) (hd : 0 < d)
    (hvalue : (d : ℚ) * 10 ^ x = m * 2 ^ e) : x ≤ 2048 ∧ -(2048 + (d.log2 : ℤ)) ≤ x := by
  have hd' : (1 : ℚ) ≤ d := by exact_mod_cast hd
  have hle := h.exponent_le
  have hge := h.le_exponent
  constructor
  · by_contra hx
    have h₁ : (2 : ℚ) ^ x < 2 ^ (53 + e) := by
      calc (2 : ℚ) ^ x ≤ 2 ^ x * 5 ^ x :=
            le_mul_of_one_le_right (by positivity) (one_le_zpow₀ (by norm_num) (by omega))
        _ = 10 ^ x := (ten_zpow x).symm
        _ ≤ d * 10 ^ x := le_mul_of_one_le_left (by positivity) hd'
        _ = m * 2 ^ e := hvalue
        _ < 2 ^ (53 + e) := h.lt_two_zpow
    rw [zpow_lt_zpow_iff_right₀ one_lt_two] at h₁
    omega
  · by_contra hx
    have h₁ : (2 : ℚ) ^ e < 2 ^ ((d.log2 : ℤ) + 1 + x) := by
      calc (2 : ℚ) ^ e ≤ m * 2 ^ e := h.two_zpow_le
        _ = d * 10 ^ x := hvalue.symm
        _ = d * 2 ^ x * 5 ^ x := by rw [ten_zpow]; ring
        _ ≤ d * 2 ^ x :=
            mul_le_of_le_one_right (by positivity) (zpow_le_one_of_nonpos₀ (by norm_num) (by omega))
        _ < 2 ^ ((d.log2 : ℤ) + 1 + x) := Double.lt_two_zpow d x
    rw [zpow_lt_zpow_iff_right₀ one_lt_two] at h₁
    omega

/-- **A number in decimal notation is read as the double with that value**, if there is one. -/
theorem ofScientific_exact {m d : ℕ} {e x : ℤ} (h : Magnitude m e) (hd : 0 < d)
    (hvalue : (d : ℚ) * 10 ^ x = m * 2 ^ e) :
    UnpackedFloat.ofScientific .binary64 d x = .finite .positive m e h.pos := by
  obtain ⟨hhigh, hlow⟩ := h.decimalExponent_bounds hd hvalue
  rw [UnpackedFloat.ofScientific, dif_neg hd.ne', if_neg (by show ¬x > 2 ^ 11; omega),
    if_neg (by show ¬x < -(2 ^ 11 + (d.log2 : ℤ)); omega)]
  split_ifs with hx
  · obtain ⟨k, rfl⟩ := Int.eq_ofNat_of_zero_le hx
    rw [zpow_natCast] at hvalue
    have he : (0 : ℤ) < 53 + e := by
      have h₁ : (2 : ℚ) ^ (0 : ℤ) < 2 ^ (53 + e) := by
        calc (2 : ℚ) ^ (0 : ℤ) = ((1 : ℕ) : ℚ) := by norm_num
          _ ≤ (d * 10 ^ k : ℕ) := Nat.cast_le.mpr (Nat.mul_pos hd (by positivity))
          _ = m * 2 ^ e := by rw [← hvalue]; push_cast; ring
          _ < 2 ^ (53 + e) := h.lt_two_zpow
      rwa [zpow_lt_zpow_iff_right₀ one_lt_two] at h₁
    refine mul_exact .positive .positive h (by show (-53 : ℤ) + 0 ≤ e; omega) ?_
    rw [← hvalue, Nat.shiftLeft_eq]
    show ((d * 2 ^ 53 : ℕ) : ℚ) * 2 ^ (-53 : ℤ) * ((10 ^ k : ℕ) * 2 ^ (0 : ℤ)) = d * 10 ^ k
    push_cast
    ring_nf
  · obtain ⟨k, hk⟩ : ∃ k : ℕ, x = -k := ⟨x.natAbs, by omega⟩
    refine div_exact .positive .positive h ?_
    rw [← hvalue, hk, neg_neg, Int.toNat_natCast, zpow_neg, zpow_natCast]
    push_cast
    field_simp

/-! ## Whole numbers -/

theorem unpackedOfNat_exact {m n : ℕ} {e : ℤ} (h : Magnitude m e) (hn : 0 < n)
    (hvalue : (n : ℚ) = m * 2 ^ e) :
    UnpackedFloat.ofNat .binary64 n = .finite .positive m e h.pos := by
  rw [UnpackedFloat.ofNat, UnpackedFloat.ofInt, UnpackedFloat.normalize,
    Int.compare_eq_gt.mpr (by exact_mod_cast hn)]
  exact round_exact .positive h hn (by simpa using hvalue)

/-- A small whole number is converted and multiplied by one. -/
theorem parts_ofNat_small {m n : ℕ} {e : ℤ} (h : Magnitude m e) (hn : 0 < n)
    (hvalue : (n : ℚ) = m * 2 ^ e) (hsmall : n < 2 ^ 53) :
    parts (Float.ofNat n) = .finite .positive m e h.pos := by
  have h64 : n.toUInt64.toNat = n := by
    rw [Nat.toUInt64_eq, UInt64.toNat_ofNat_of_lt']
    exact hsmall.trans (by decide)
  have hconv : parts n.toUInt64.toFloat = .finite .positive m e h.pos := by
    show UnpackedFloat.unpack .binary64 (UnpackedFloat.pack .binary64
      (UnpackedFloat.ofNat .binary64 n.toUInt64.toNat)) = _
    rw [h64, unpackedOfNat_exact h hn hvalue]
    exact unpack_pack h
  have hone : Float.ofNat n = n.toUInt64.toFloat * 1.0 := by
    show Float.ofScientific n false 0 = _
    rw [Float.ofScientific, dif_pos ⟨hsmall, Nat.zero_le 22⟩]
    rfl
  have hmul : UnpackedFloat.mul .binary64 (parts n.toUInt64.toFloat) (parts 1.0) =
      .finite .positive m e h.pos := by
    rw [hconv]
    refine mul_exact .positive .positive h (by show e + -52 ≤ e; omega) ?_
    show (m : ℚ) * 2 ^ e * ((2 ^ 52 : ℕ) * 2 ^ (-52 : ℤ)) = m * 2 ^ e
    norm_num
  rw [hone, mul_eq, hmul]
  exact parts_ofParts h

/-- A large whole number is converted like a number in decimal notation. -/
theorem ofNat_of_large {n : ℕ} (hlarge : ¬n < 2 ^ 53) :
    Float.ofNat n = ofParts (UnpackedFloat.ofScientific .binary64 n 0) := by
  show Float.ofScientific n false 0 = _
  rw [Float.ofScientific, dif_neg fun h => hlarge h.1]
  rfl

/-- **A whole number is converted exactly**, if it is the value of a double. -/
theorem parts_ofNat {m n : ℕ} {e : ℤ} (h : Magnitude m e) (hn : 0 < n)
    (hvalue : (n : ℚ) = m * 2 ^ e) : parts (Float.ofNat n) = .finite .positive m e h.pos := by
  by_cases hsmall : n < 2 ^ 53
  · exact parts_ofNat_small h hn hvalue hsmall
  · rw [ofNat_of_large hsmall, ofScientific_exact h hn (by simpa using hvalue)]
    exact parts_ofParts h

/-- Every positive whole number up to `2^53` is the value of a double. -/
theorem exists_magnitude {n : ℕ} (hpos : 0 < n) (hn : n ≤ 2 ^ 53) :
    ∃ m e, Magnitude m e ∧ (n : ℚ) = m * 2 ^ e := by
  rcases hn.lt_or_eq with hlt | rfl
  · have hlog : n.log2 ≤ 52 := by
      have := log2_lt n hlt
      omega
    have h₁ := Nat.log2_self_le hpos.ne'
    have h₂ := Nat.lt_log2_self (n := n)
    have hsplit : 2 ^ n.log2 * 2 ^ (52 - n.log2) = 2 ^ 52 := by
      rw [← pow_add]
      congr 1
      omega
    refine ⟨n * 2 ^ (52 - n.log2), -((52 - n.log2 : ℕ) : ℤ), ⟨by positivity, ?_, by omega, by omega,
      Or.inl ?_⟩, ?_⟩
    · calc n * 2 ^ (52 - n.log2) < 2 ^ (n.log2 + 1) * 2 ^ (52 - n.log2) := by gcongr
        _ = 2 ^ 53 := by rw [pow_succ, mul_right_comm, hsplit]; norm_num
    · calc 2 ^ 52 = 2 ^ n.log2 * 2 ^ (52 - n.log2) := hsplit.symm
        _ ≤ n * 2 ^ (52 - n.log2) := by gcongr
    · rw [zpow_neg, zpow_natCast]
      push_cast
      field_simp
  · exact ⟨2 ^ 52, 1, ⟨by norm_num, by norm_num, by norm_num, by norm_num, Or.inl le_rfl⟩,
      by norm_num⟩

theorem exact_ofNat {n : ℕ} (hn : n ≤ 2 ^ 53) : exact (Float.ofNat n) = n := by
  rcases Nat.eq_zero_or_pos n with rfl | hpos
  · rfl
  · obtain ⟨m, e, h, hvalue⟩ := exists_magnitude hpos hn
    rw [exact_of_parts (parts_ofNat h hpos hvalue), hvalue]
    simp [Sign.apply]

theorem isFinite_ofNat {n : ℕ} (hn : n ≤ 2 ^ 53) : (Float.ofNat n).isFinite := by
  rcases Nat.eq_zero_or_pos n with rfl | hpos
  · rfl
  · obtain ⟨m, e, h, hvalue⟩ := exists_magnitude hpos hn
    show (parts (Float.ofNat n)).isFinite
    rw [parts_ofNat h hpos hvalue]
    rfl

end SymCalc.Double
