import SymCalc.Double.Basic
import SymCalc.Proofs.Double.Packing

/-!
# Comparing doubles

Two doubles compare as equal when they are the same or are both zeros; not-a-number equals
nothing. `Agree` is this relation with not-a-number included, so it is an equivalence, and most
operations respect it.

* `beq_iff_agree`: for numbers, agreement is equality as doubles compare.
* `beq_zero_iff`, `lt_zero_iff` and `zero_lt_iff`: what comparison with zero says about the parts of
  a double.
-/

namespace SymCalc.Double

open Float.Model UnpackedFloat

variable {x y z : Float}

/-! ## Zero, and the numbers below and above it -/

theorem lt_iff : x < y ↔ (parts x).compare (parts y) = some .lt := by
  show Float.lt x y = true ↔ _
  rw [Float.lt, decide_eq_true_iff]
  show UnpackedFloat.lt (parts x) (parts y) = true ↔ _
  rw [UnpackedFloat.lt, beq_iff_eq]

theorem beq_zero_iff : (x == 0.0) = true ↔ ∃ s, parts x = .zero s := by
  have hzero : parts 0.0 = .zero .positive := rfl
  rw [beq_eq, beq_iff_ne_notANumber_and_eq, hzero]
  cases parts x with
  | zero s => cases s <;> simp
  | _ => simp

theorem lt_zero_iff : x < 0.0 ↔
    parts x = .infinity .negative ∨ ∃ m e h, parts x = .finite .negative m e h := by
  have hzero : parts 0.0 = .zero .positive := rfl
  rw [lt_iff, hzero]
  cases parts x with
  | notANumber => simp [UnpackedFloat.compare]
  | zero s => simp [UnpackedFloat.compare]
  | infinity s => cases s <;> simp [UnpackedFloat.compare]
  | finite s m e h =>
    cases s with
    | positive => simp [UnpackedFloat.compare]
    | negative => simpa [UnpackedFloat.compare] using h

theorem neg_ne_zero (h : x < 0.0) : ¬(-x == 0.0) = true := by
  intro hzero
  obtain ⟨s, hs⟩ := beq_zero_iff.mp hzero
  rw [parts_neg] at hs
  rcases lt_zero_iff.mp h with hx | ⟨m, e, hm, hx⟩
  · rw [hx] at hs
    cases hs
  · rw [hx] at hs
    cases hs

theorem zero_lt_iff : 0.0 < x ↔
    parts x = .infinity .positive ∨ ∃ m e h, parts x = .finite .positive m e h := by
  have hzero : parts 0.0 = .zero .positive := rfl
  rw [lt_iff, hzero]
  cases parts x with
  | notANumber => simp [UnpackedFloat.compare]
  | zero s => simp [UnpackedFloat.compare]
  | infinity s => cases s <;> simp [UnpackedFloat.compare]
  | finite s m e h =>
    cases s with
    | positive => simpa [UnpackedFloat.compare] using h
    | negative => simp [UnpackedFloat.compare]

theorem zero_lt_of_finite_positive {m : ℕ} {e : ℤ} {h : 0 < m}
    (hx : parts x = .finite .positive m e h) : 0.0 < x :=
  zero_lt_iff.mpr (Or.inr ⟨m, e, h, hx⟩)

/-- Nothing is above infinity. -/
theorem not_infinity_lt (v : UnpackedFloat) :
    ¬UnpackedFloat.compare (.infinity .positive) v = some .lt := by
  cases v with
  | infinity s => cases s <;> simp [UnpackedFloat.compare]
  | _ => simp [UnpackedFloat.compare]

theorem isFinite_of_abs_lt (h : x.abs < y) : x.isFinite := by
  rw [lt_iff, parts_abs] at h
  show (parts x).isFinite
  cases hx : parts x with
  | notANumber => simp [hx, UnpackedFloat.abs, UnpackedFloat.compare] at h
  | infinity s =>
    rw [hx] at h
    exact absurd h (not_infinity_lt (parts y))
  | zero s => rfl
  | finite s m e hm => rfl

/-! ## Agreement -/

/-- Equal up to the sign of zero. -/
def Agree (x y : Float) : Prop :=
  x = y ∨ (x == 0.0) = true ∧ (y == 0.0) = true

@[simp] theorem Agree.refl (x : Float) : Agree x x :=
  Or.inl rfl

theorem Agree.symm (h : Agree x y) : Agree y x := by
  rcases h with rfl | ⟨hx, hy⟩
  · exact Agree.refl x
  · exact Or.inr ⟨hy, hx⟩

theorem Agree.trans (h₁ : Agree x y) (h₂ : Agree y z) : Agree x z := by
  rcases h₁ with rfl | ⟨hx, hy⟩
  · exact h₂
  · rcases h₂ with rfl | ⟨-, hz⟩
    · exact Or.inr ⟨hx, hy⟩
    · exact Or.inr ⟨hx, hz⟩

theorem agree_of_beq (h : (x == y) = true) : Agree x y := by
  rw [beq_eq, beq_iff_ne_notANumber_and_eq] at h
  obtain ⟨-, -, h | ⟨hx, hy⟩ | ⟨hx, hy⟩⟩ := h
  · exact Or.inl (parts_injective h)
  · exact Or.inr ⟨beq_zero_iff.mpr ⟨_, hx⟩, beq_zero_iff.mpr ⟨_, hy⟩⟩
  · exact Or.inr ⟨beq_zero_iff.mpr ⟨_, hx⟩, beq_zero_iff.mpr ⟨_, hy⟩⟩

/-- **For numbers, agreement is equality as doubles compare.** -/
theorem beq_iff_agree (hx : x.isNaN = false) : (x == y) = true ↔ Agree x y := by
  have hne : parts x ≠ .notANumber := by
    intro h
    have hnan : (parts x).isNaN = false := hx
    rw [h] at hnan
    cases hnan
  refine ⟨agree_of_beq, ?_⟩
  rw [beq_eq, beq_iff_ne_notANumber_and_eq]
  rintro (rfl | ⟨hx, hy⟩)
  · exact ⟨hne, hne, Or.inl rfl⟩
  · obtain ⟨s, hs⟩ := beq_zero_iff.mp hx
    obtain ⟨t, ht⟩ := beq_zero_iff.mp hy
    rw [hs, ht]
    cases s <;> cases t <;> simp

end SymCalc.Double
