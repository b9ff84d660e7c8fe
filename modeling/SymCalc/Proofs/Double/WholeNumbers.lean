import SymCalc.Double.Power
import SymCalc.Proofs.Double.Agreement
import SymCalc.Proofs.Double.Rounding

/-!
# Whole doubles

A power tells whole exponents from fractional ones, and odd ones from even ones. Both are decided
on the binary form of the exponent, and exactly:

* `wholeValue?_eq_some_iff` — the whole number found is the exact value, and none is missed.
* `isWhole_iff` and `isOdd_iff` — so an exponent counts as whole, or as odd, if it is.

A magnitude is a mantissa times a power of two, or divided by one. Only a division can leave a
remainder, and then the magnitude is not whole (`exact_ne_of_remainder`).
-/

namespace SymCalc.Double

open Float.Model UnpackedFloat

variable {x : Float} {s : Sign} {m : ℕ} {e n : ℤ} {hm : 0 < m}

theorem two_zpow_of_nonneg (he : 0 ≤ e) : (2 : ℚ) ^ e = 2 ^ e.natAbs := by
  rw [← zpow_natCast, Int.natAbs_of_nonneg he]

theorem two_zpow_of_neg (he : e < 0) : (2 : ℚ) ^ e = (2 ^ e.natAbs)⁻¹ := by
  rw [← zpow_natCast, ← zpow_neg, Int.natCast_natAbs, abs_of_neg he, Int.neg_neg]

theorem apply_mul (s : Sign) (k l : ℤ) : s.apply (k * l) = s.apply k * l := by
  cases s with
  | positive => rfl
  | negative => exact (neg_mul k l).symm

/-! ## Where the point lies behind the mantissa -/

theorem exact_of_nonneg (hx : parts x = .finite s m e hm) (he : 0 ≤ e) :
    exact x = s.apply (m * 2 ^ e.natAbs : ℕ) := by
  rw [exact_of_parts hx, two_zpow_of_nonneg he, Nat.cast_mul, apply_mul]
  push_cast
  rfl

/-! ## Where it lies inside or before the mantissa -/

theorem exact_of_neg (hx : parts x = .finite s m e hm) (he : e < 0) :
    exact x = s.apply m / 2 ^ e.natAbs := by
  rw [exact_of_parts hx, two_zpow_of_neg he, div_eq_mul_inv]

theorem exact_of_dvd (hx : parts x = .finite s m e hm) (he : e < 0)
    (hrest : m % 2 ^ e.natAbs = 0) : exact x = s.apply (m / 2 ^ e.natAbs : ℕ) := by
  have hmul : m = m / 2 ^ e.natAbs * 2 ^ e.natAbs :=
    (Nat.div_mul_cancel (Nat.dvd_of_mod_eq_zero hrest)).symm
  rw [exact_of_neg hx he, div_eq_iff (by positivity)]
  have hsigned : s.apply m = s.apply (m / 2 ^ e.natAbs : ℕ) * 2 ^ e.natAbs := by
    rw [← apply_mul]
    exact_mod_cast congrArg s.apply (congrArg Nat.cast hmul)
  exact_mod_cast hsigned

theorem exact_ne_of_remainder (hx : parts x = .finite s m e hm) (he : e < 0)
    (hrest : m % 2 ^ e.natAbs ≠ 0) (n : ℤ) : exact x ≠ n := by
  intro h
  rw [exact_of_neg hx he, div_eq_iff (by positivity)] at h
  have hvalue : s.apply m = n * 2 ^ e.natAbs := by exact_mod_cast h
  have hdvd : (2 ^ e.natAbs : ℤ) ∣ m := by
    have hsigned : (2 ^ e.natAbs : ℤ) ∣ s.apply m := hvalue ▸ dvd_mul_left _ _
    cases s with
    | positive => exact hsigned
    | negative => exact (dvd_neg (α := ℤ)).mp hsigned
  exact hrest (Nat.mod_eq_zero_of_dvd (by exact_mod_cast hdvd))

/-! ## Whole and odd -/

theorem wholeValue?_of_parts (hx : parts x = .finite s m e hm) :
    wholeValue? x =
      if 0 ≤ e then some (s.apply (m * 2 ^ e.natAbs : ℕ))
      else if m % 2 ^ e.natAbs = 0 then some (s.apply (m / 2 ^ e.natAbs : ℕ))
      else none := by
  have hx : x.toModel.unpack = .finite s m e hm := hx
  rw [wholeValue?, hx]
  cases s <;> rfl

/-- **Whole numbers are found, and nothing else is.** -/
theorem wholeValue?_eq_some_iff (hx : x.isFinite) : wholeValue? x = some n ↔ exact x = n := by
  rcases parts_of_finite hx with ⟨s, hs⟩ | ⟨s, m, e, hm, hs⟩
  · have hzero : wholeValue? x = some 0 := by
      have hs : x.toModel.unpack = .zero s := hs
      rw [wholeValue?, hs]
    have hexact : exact x = 0 := by simp only [exact, hs]
    rw [hzero, hexact, Option.some_inj]
    exact_mod_cast Iff.rfl
  · rw [wholeValue?_of_parts hs]
    split_ifs with he hrest
    · rw [exact_of_nonneg hs he, Option.some_inj, Int.cast_inj]
    · rw [exact_of_dvd hs (not_le.mp he) hrest, Option.some_inj, Int.cast_inj]
    · exact iff_of_false (by simp) (exact_ne_of_remainder hs (not_le.mp he) hrest n)

theorem isWhole_iff (hx : x.isFinite) : isWhole x = true ↔ ∃ n : ℤ, exact x = n := by
  simp only [isWhole, Option.isSome_iff_exists, wholeValue?_eq_some_iff hx]

theorem isOdd_iff (hx : x.isFinite) (hn : exact x = n) : isOdd x = true ↔ Odd n := by
  rw [isOdd, (wholeValue?_eq_some_iff hx).mpr hn, Option.any_some, decide_eq_true_iff,
    Int.odd_iff]

end SymCalc.Double
