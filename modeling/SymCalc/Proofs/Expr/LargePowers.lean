import SymCalc.Proofs.Double.WholeNumbers
import SymCalc.Proofs.Expr.RationalValue

/-!
# Powers that are too large

Powers rest on a library power, which is asked for positive finite bases only. Signs, whole
exponents and the powers that are not real are decided around it. Everything here is about an
arbitrary library of which it is known when its powers are infinite.

* `TooLarge` and `IsWithinDoubles` — a real number from `2^1024` on, and one that is not above the
  greatest double. What lies between may be rounded either way.
* `OverflowsAsDocumented` — what is documented of a library power: it is infinite where the power of
  the exact values is too large, and not where that is within the doubles.
* `pow_whole` — with a whole exponent, a power that is too large is the infinity of its sign.
* `pow_fractional` — a base below zero has no real power with a fractional exponent. Such a power is
  not a number, but if its modulus is too large it is infinite.
* `evaluate_extreme_power` — the same of the values of expressions.

The exception comes from complex powers, which overflow like real ones: that a power is too large
is noticed before it is seen to be no real number (`isNaN_power_of_negTwo`).
-/

namespace SymCalc

open Double

namespace Double

open Float.Model UnpackedFloat

variable {x base exponent : Float} {n : ℤ}

/-! ## The sign of the exact value -/

theorem exact_lt_zero (h : x < 0.0) (hx : x.isFinite) : exact x < 0 := by
  rcases lt_zero_iff.mp h with hinf | ⟨m, e, hm, hs⟩
  · have hfinite : (parts x).isFinite := hx
    rw [hinf] at hfinite
    cases hfinite
  · have hpos : (0 : ℚ) < m * 2 ^ e := by positivity
    rw [exact_of_parts hs, Sign.apply]
    push_cast
    linarith

theorem zero_lt_neg (h : x < 0.0) : 0.0 < -x := by
  rw [zero_lt_iff, parts_neg]
  rcases lt_zero_iff.mp h with hs | ⟨m, e, hm, hs⟩
  · exact Or.inl (by rw [hs]; rfl)
  · exact Or.inr ⟨m, e, hm, by rw [hs]; rfl⟩

theorem zero_lt_of_finite (hx : x.isFinite) (hzero : ¬(x == 0.0) = true) (hneg : ¬x < 0.0) :
    0.0 < x := by
  rcases parts_of_finite hx with hs | ⟨s, m, e, hm, hs⟩
  · exact absurd (beq_zero_iff.mpr hs) hzero
  · cases s with
    | positive => exact zero_lt_of_finite_positive hs
    | negative => exact absurd (lt_zero_iff.mpr (Or.inr ⟨m, e, hm, hs⟩)) hneg

theorem zero_lt_exact (h : 0.0 < x) (hx : x.isFinite) : 0 < exact x := by
  rcases zero_lt_iff.mp h with hinf | ⟨m, e, hm, hs⟩
  · have hfinite : (parts x).isFinite := hx
    rw [hinf] at hfinite
    cases hfinite
  · rw [exact_of_parts hs, Sign.apply]
    positivity

/-! ## Numbers that are too large for a double -/

/-- A real number whose magnitude is beyond those that the digits of a double reach. -/
def TooLarge (r : ℝ) : Prop :=
  2 ^ 1024 ≤ |r|

/-- A real number that is not above the greatest double, nor below the least. -/
def IsWithinDoubles (r : ℝ) : Prop :=
  |r| ≤ (2 ^ 53 - 1) * 2 ^ 971

theorem greatest_lt : ((2 : ℝ) ^ 53 - 1) * 2 ^ 971 < 2 ^ 1024 := by
  have hsplit : (2 : ℝ) ^ 1024 = 2 ^ 53 * 2 ^ 971 := by rw [← pow_add]
  have hunit : (0 : ℝ) < 2 ^ 971 := by positivity
  rw [hsplit]
  -- The power stays a symbol: a number that long is not worth computing.
  generalize (2 : ℝ) ^ 971 = unit at hunit
  linarith

theorem IsWithinDoubles.not_tooLarge {r : ℝ} (h : IsWithinDoubles r) : ¬TooLarge r :=
  not_le.mpr (h.trans_lt greatest_lt)

theorem Magnitude.le_greatest {m : ℕ} {e : ℤ} (h : Magnitude m e) :
    (m : ℚ) * 2 ^ e ≤ (2 ^ 53 - 1) * 2 ^ 971 := by
  have hm : (m : ℚ) ≤ 2 ^ 53 - 1 := by
    rw [le_sub_iff_add_le]
    exact_mod_cast h.lt
  have he : (2 : ℚ) ^ e ≤ 2 ^ (971 : ℤ) := zpow_le_zpow_right₀ one_le_two h.exponent_le
  exact mul_le_mul hm (by exact_mod_cast he) (by positivity) (by norm_num)

theorem abs_exact_of_parts {s : Sign} {m : ℕ} {e : ℤ} {hm : 0 < m}
    (h : parts x = .finite s m e hm) : |exact x| = m * 2 ^ e := by
  rw [exact_of_parts h]
  cases s <;> simp [Sign.apply, abs_mul]

theorem abs_exact_le (x : Float) : |exact x| ≤ (2 ^ 53 - 1) * 2 ^ 971 := by
  have hcanonical := canonical_parts x
  cases hs : parts x with
  | finite s m e hm =>
    rw [hs] at hcanonical
    have hmagnitude : Magnitude m e := hcanonical
    rw [abs_exact_of_parts hs]
    exact hmagnitude.le_greatest
  | _ =>
    have hzero : exact x = 0 := by simp only [exact, hs]
    rw [hzero, abs_zero]
    exact mul_nonneg (by norm_num) (by positivity)

theorem isWithinDoubles_exact (x : Float) : IsWithinDoubles (exact x) :=
  calc |(exact x : ℝ)| = ((|exact x| : ℚ) : ℝ) := (Rat.cast_abs _).symm
    _ ≤ (((2 ^ 53 - 1) * 2 ^ 971 : ℚ) : ℝ) := Rat.cast_le.mpr (abs_exact_le x)
    _ = (2 ^ 53 - 1) * 2 ^ 971 := by
      rw [Rat.cast_mul, Rat.cast_sub, Rat.cast_pow, Rat.cast_pow, Rat.cast_one, Rat.cast_ofNat]

theorem isWithinDoubles_one : IsWithinDoubles 1 := by
  simpa [exact_one] using isWithinDoubles_exact 1.0

theorem isWithinDoubles_zero_zpow (n : ℤ) : IsWithinDoubles (0 ^ n) := by
  by_cases hn : n = 0
  · rw [hn, zpow_zero]
    exact isWithinDoubles_one
  · rw [zero_zpow n hn]
    simpa [exact_of_beq_zero zero_beq_zero] using isWithinDoubles_exact 0.0

/-- The sign of a base does not change how large a whole power is. -/
theorem tooLarge_abs_rpow (r : ℝ) (n : ℤ) : TooLarge (|r| ^ (n : ℝ)) ↔ TooLarge (r ^ n) := by
  rw [TooLarge, TooLarge, Real.rpow_intCast, abs_zpow, abs_abs, abs_zpow]

/-! ## A library power -/

/-- What is documented of a library power of a positive finite base and a finite exponent: it is
infinite where the power of the exact values is too large, and not where that is within the
doubles. -/
structure OverflowsAsDocumented [PowerLibrary] : Prop where
  large {base exponent : Float} (hpos : 0.0 < base) (hbase : base.isFinite)
    (hexponent : exponent.isFinite) (h : TooLarge ((exact base : ℝ) ^ (exact exponent : ℝ))) :
    PowerLibrary.pow base exponent = infinity
  small {base exponent : Float} (hpos : 0.0 < base) (hbase : base.isFinite)
    (hexponent : exponent.isFinite)
    (h : IsWithinDoubles ((exact base : ℝ) ^ (exact exponent : ℝ))) :
    (PowerLibrary.pow base exponent).isInf = false

section

variable [PowerLibrary]

theorem pow_of_finite (hbase : base.isFinite) (hexponent : exponent.isFinite)
    (hne : ¬(exponent == 0.0) = true) :
    pow base exponent =
      if base == 0.0 then zeroPow base exponent
      else if base < 0.0 then negativePow base exponent
      else positivePow base exponent := by
  rw [pow, if_neg hne, isNaN_of_finite hbase, isNaN_of_finite hexponent,
    isInf_of_finite hbase, isInf_of_finite hexponent]
  rfl

/-! ## Positive bases -/

section

variable (hlib : OverflowsAsDocumented) (hpos : 0.0 < base) (hbase : base.isFinite)
  (hexponent : exponent.isFinite)
include hlib hpos hbase hexponent

/-- The library is not asked for a power of one, nor for a first power, but those are not large. -/
theorem positivePow_of_tooLarge (h : TooLarge ((exact base : ℝ) ^ (exact exponent : ℝ))) :
    positivePow base exponent = infinity := by
  rw [positivePow]
  split_ifs with hone hfirst
  · rw [eq_of_beq_one hone, exact_one, Rat.cast_one, Real.one_rpow] at h
    exact absurd h isWithinDoubles_one.not_tooLarge
  · rw [eq_of_beq_one hfirst, exact_one, Rat.cast_one, Real.rpow_one] at h
    exact absurd h (isWithinDoubles_exact base).not_tooLarge
  · exact hlib.large hpos hbase hexponent h

theorem isInf_positivePow (h : IsWithinDoubles ((exact base : ℝ) ^ (exact exponent : ℝ))) :
    (positivePow base exponent).isInf = false := by
  rw [positivePow]
  split_ifs
  · rfl
  · exact isInf_of_finite hbase
  · exact hlib.small hpos hbase hexponent h

end

/-! ## All bases -/

section

variable (hlib : OverflowsAsDocumented) (hbase : base.isFinite) (hexponent : exponent.isFinite)
include hlib hbase hexponent

/-- **A fractional power of a base below zero** is not a number, or infinite. It is infinite if its
modulus is too large, and not a number if that is within the doubles. -/
theorem pow_fractional (hneg : base < 0.0) (hfraction : ∀ n : ℤ, exact exponent ≠ n) :
    (pow base exponent = notANumber ∨ pow base exponent = infinity)
      ∧ (TooLarge (|(exact base : ℝ)| ^ (exact exponent : ℝ)) → pow base exponent = infinity)
      ∧ (IsWithinDoubles (|(exact base : ℝ)| ^ (exact exponent : ℝ)) →
        pow base exponent = notANumber) := by
  have hexact : exact base < 0 := exact_lt_zero hneg hbase
  have hne : ¬(exponent == 0.0) = true := fun h => hfraction 0 (by simp [exact_of_beq_zero h])
  have hzero : ¬(base == 0.0) = true := fun h => hexact.ne (exact_of_beq_zero h)
  have hwhole : ¬isWhole exponent = true := fun h =>
    ((isWhole_iff hexponent).mp h).elim hfraction
  have habs : |(exact base : ℝ)| = (exact (-base) : ℝ) := by
    rw [exact_neg, Rat.cast_neg, abs_of_neg (Rat.cast_lt_zero.mpr hexact)]
  have hbase' : (-base).isFinite := (isFinite_neg base).trans hbase
  rw [pow_of_finite hbase hexponent hne, if_neg hzero, if_pos hneg, negativePow, if_neg hwhole,
    habs]
  refine ⟨?either, ?large, ?small⟩
  case either =>
    split_ifs
    · exact Or.inr rfl
    · exact Or.inl rfl
  case large =>
    intro h
    rw [positivePow_of_tooLarge hlib (zero_lt_neg hneg) hbase' hexponent h]
    rfl
  case small =>
    intro h
    rw [isInf_positivePow hlib (zero_lt_neg hneg) hbase' hexponent h]
    rfl

/-- **A whole power that is too large** is the infinity with its sign. -/
theorem pow_whole (hn : exact exponent = n) (hlarge : TooLarge ((exact base : ℝ) ^ n)) :
    pow base exponent = if 0 < exact base ^ n then infinity else -infinity := by
  have hne : ¬(exponent == 0.0) = true := by
    intro h
    have hn : n = 0 := by exact_mod_cast hn.symm.trans (exact_of_beq_zero h)
    rw [hn, zpow_zero] at hlarge
    exact isWithinDoubles_one.not_tooLarge hlarge
  have hzero : ¬(base == 0.0) = true := by
    intro h
    rw [exact_of_beq_zero h, Rat.cast_zero] at hlarge
    exact (isWithinDoubles_zero_zpow n).not_tooLarge hlarge
  have hexp : (exact exponent : ℝ) = (n : ℝ) := by rw [hn, Rat.cast_intCast]
  have hrpow : TooLarge (|(exact base : ℝ)| ^ (exact exponent : ℝ)) := by
    rw [hexp]
    exact (tooLarge_abs_rpow _ n).mpr hlarge
  rw [pow_of_finite hbase hexponent hne, if_neg hzero]
  by_cases hneg : base < 0.0
  · have hexact : exact base < 0 := exact_lt_zero hneg hbase
    have hwhole : isWhole exponent = true := (isWhole_iff hexponent).mpr ⟨n, hn⟩
    have hbase' : (-base).isFinite := (isFinite_neg base).trans hbase
    rw [abs_of_neg (Rat.cast_lt_zero.mpr hexact), ← Rat.cast_neg, ← exact_neg] at hrpow
    rw [if_pos hneg, negativePow, if_pos hwhole,
      positivePow_of_tooLarge hlib (zero_lt_neg hneg) hbase' hexponent hrpow]
    rcases Int.even_or_odd n with heven | hodd
    · have hodd : ¬isOdd exponent = true := fun h =>
        Int.not_odd_iff_even.mpr heven ((isOdd_iff hexponent hn).mp h)
      rw [if_neg hodd, if_pos (heven.zpow_pos hexact.ne)]
    · rw [if_pos ((isOdd_iff hexponent hn).mpr hodd), if_neg (hodd.zpow_neg hexact).not_gt]
  · have hpos : 0.0 < base := zero_lt_of_finite hbase hzero hneg
    have hexact : 0 < exact base := zero_lt_exact hpos hbase
    rw [abs_of_pos (Rat.cast_pos.mpr hexact)] at hrpow
    rw [if_neg hneg, positivePow_of_tooLarge hlib hpos hbase hexponent hrpow,
      if_pos (zpow_pos hexact n)]

end

end

end Double

namespace Expr

variable [PowerLibrary] {ε x a b c : Float} {l r : Expr}

/-! ## Values of expressions -/

theorem evaluate_number (hc : ¬(c == 0.0) = true) : (number c).evaluate ε x = .ok c := by
  rw [number, evaluate, Constant.ofFloat, dif_neg hc]

theorem evaluate_power (hl : l.evaluate ε x = .ok a) (hr : r.evaluate ε x = .ok b) :
    (binary .pow l r).evaluate ε x = .ok (pow a b) := by
  rw [evaluate, hl, hr]
  rfl

/-- **Powers that are not real, and powers that are too large.** Let the library overflow as it is
documented to, and let base and exponent have finite values. A fractional power of a base below
zero is not a number or infinite: not a number if its modulus is within the doubles, and infinite if
it is too large. A whole power that is too large is the infinity with the sign of the exact
power. -/
theorem evaluate_extreme_power (hlib : OverflowsAsDocumented)
    (hl : l.evaluate ε x = .ok a) (hr : r.evaluate ε x = .ok b)
    (ha : a.isFinite) (hb : b.isFinite) :
    ∃ v, (binary .pow l r).evaluate ε x = .ok v
      ∧ (a < 0.0 → (∀ n : ℤ, exact b ≠ n) →
        (v = notANumber ∨ v = infinity)
          ∧ (TooLarge (|(exact a : ℝ)| ^ (exact b : ℝ)) → v = infinity)
          ∧ (IsWithinDoubles (|(exact a : ℝ)| ^ (exact b : ℝ)) → v = notANumber))
      ∧ ∀ n : ℤ, exact b = n → TooLarge ((exact a : ℝ) ^ n) →
        v = if 0 < exact a ^ n then infinity else -infinity :=
  ⟨pow a b, evaluate_power hl hr, pow_fractional hlib ha hb, fun _ => pow_whole hlib ha hb⟩

end Expr

namespace Double

open Float.Model UnpackedFloat

/-! ## A library with the documented power -/

open Classical in
/-- The library power of `Float`, put right wherever it might not be as documented. -/
noncomputable def documentedPow (base exponent : Float) : Float :=
  if TooLarge ((exact base : ℝ) ^ (exact exponent : ℝ)) then infinity
  else if (base.pow exponent).isInf then Float.ofBits 0x7FEFFFFFFFFFFFFF
  else base.pow exponent

/-- The library with that power. -/
noncomputable abbrev documentedLibrary : PowerLibrary :=
  ⟨documentedPow⟩

theorem overflows_documentedLibrary : @OverflowsAsDocumented documentedLibrary := by
  let := documentedLibrary
  constructor
  case large =>
    intro base exponent _ _ _ h
    exact if_pos h
  case small =>
    intro base exponent _ _ _ h
    show (documentedPow base exponent).isInf = false
    rw [documentedPow, if_neg h.not_tooLarge]
    split_ifs with hinf
    · decide
    · exact Bool.eq_false_iff.mpr hinf

/-! ## Powers of minus two -/

theorem exact_negTwo : exact (-2.0) = -2 := by
  rw [exact_neg, exact_two]

theorem exact_1024_half : exact 1024.5 = 1024 + 1 / 2 := by
  have hparts : parts 1024.5 = .finite .positive (2049 * 2 ^ 41) (-42) (by decide) := rfl
  rw [exact_of_parts hparts]
  norm_num [Sign.apply]

theorem exact_1024_half_ne (n : ℤ) : exact 1024.5 ≠ n := by
  intro h
  have htwice : (2049 : ℚ) = 2 * n := by
    rw [← h, exact_1024_half]
    norm_num
  have htwice : (2049 : ℤ) = 2 * n := by exact_mod_cast htwice
  omega

theorem exact_1025 : exact 1025.0 = (1025 : ℤ) := by
  have hparts : parts 1025.0 = .finite .positive (1025 * 2 ^ 42) (-42) (by decide) := rfl
  rw [exact_of_parts hparts]
  norm_num [Sign.apply]

theorem tooLarge_fractional_power : TooLarge (|(exact (-2.0) : ℝ)| ^ (exact 1024.5 : ℝ)) := by
  have hbase : |(exact (-2.0) : ℝ)| = 2 := by simp [exact_negTwo]
  have hexponent : ((1024 : ℕ) : ℝ) ≤ (exact 1024.5 : ℝ) := by
    rw [exact_1024_half]
    norm_num
  refine (?_ : (2 : ℝ) ^ 1024 ≤ _).trans (le_abs_self _)
  rw [hbase, ← Real.rpow_natCast]
  exact Real.rpow_le_rpow_of_exponent_le one_le_two hexponent

theorem tooLarge_whole_power : TooLarge ((exact (-2.0) : ℝ) ^ (1025 : ℤ)) := by
  have hbase : |(exact (-2.0) : ℝ)| = 2 := by simp [exact_negTwo]
  rw [TooLarge, abs_zpow, hbase, ← zpow_natCast]
  exact zpow_le_zpow_right₀ one_le_two (by norm_num)

end Double

namespace Expr

/-- A fractional power of minus one is not a number, the same power of minus two is infinite, and
the odd powers of minus two go to the other infinity. -/
theorem evaluate_extreme_power_negTwo :
    letI := documentedLibrary
    (binary .pow (number (-1.0)) (number 1024.5)).evaluate 1.0 0.0 = .ok notANumber
      ∧ (binary .pow (number (-2.0)) (number 1024.5)).evaluate 1.0 0.0 = .ok infinity
      ∧ (binary .pow (number (-2.0)) (number 1025.0)).evaluate 1.0 0.0 = .ok (-infinity) := by
  let := documentedLibrary
  have hlib : OverflowsAsDocumented := overflows_documentedLibrary
  refine ⟨?one, ?fractional, ?whole⟩
  case one =>
    obtain ⟨v, hv, hfraction, -⟩ := evaluate_extreme_power hlib
      (ε := 1.0) (x := 0.0) (evaluate_number (c := -1.0) (by decide))
      (evaluate_number (c := 1024.5) (by decide)) (by decide) (by decide)
    have hmodulus : |(exact (-1.0) : ℝ)| ^ (exact 1024.5 : ℝ) = 1 := by
      rw [exact_negOne]
      norm_num
    obtain ⟨-, -, hsmall⟩ := hfraction (by decide) exact_1024_half_ne
    rw [hv, hsmall (hmodulus ▸ isWithinDoubles_one)]
  case fractional =>
    obtain ⟨v, hv, hfraction, -⟩ := evaluate_extreme_power hlib
      (ε := 1.0) (x := 0.0) (evaluate_number (c := -2.0) (by decide))
      (evaluate_number (c := 1024.5) (by decide)) (by decide) (by decide)
    obtain ⟨-, hlarge, -⟩ := hfraction (by decide) exact_1024_half_ne
    rw [hv, hlarge tooLarge_fractional_power]
  case whole =>
    obtain ⟨v, hv, -, hwhole⟩ := evaluate_extreme_power hlib
      (ε := 1.0) (x := 0.0) (evaluate_number (c := -2.0) (by decide))
      (evaluate_number (c := 1025.0) (by decide)) (by decide) (by decide)
    have hsign : ¬0 < exact (-2.0) ^ (1025 : ℤ) := by
      rw [exact_negTwo]
      exact (Odd.zpow_neg (by decide) (by norm_num)).not_gt
    rw [hv, hwhole 1025 exact_1025 tooLarge_whole_power, if_neg hsign]

/-- A base below zero and a fractional exponent, yet a result that passes for a number. -/
theorem isNaN_power_of_negTwo :
    ∃ v, @evaluate documentedLibrary 1.0 0.0 (binary .pow (number (-2.0)) (number 1024.5)) = .ok v
      ∧ v.isNaN = false := by
  let := documentedLibrary
  have hpower : pow (-2.0) 1024.5 = infinity :=
    (pow_fractional overflows_documentedLibrary (by decide) (by decide) (by decide)
      exact_1024_half_ne).2.1 tooLarge_fractional_power
  exact ⟨_, evaluate_power (evaluate_number (by decide)) (evaluate_number (by decide)),
    by rw [hpower]; rfl⟩

end Expr

end SymCalc
