import SymCalc.Double.Elementary
import SymCalc.Proofs.Double.Agreement

/-!
# Operations that can fail

Not every operation on doubles has a result everywhere. A division by zero has none, nor has the
sine of an infinite angle or the logarithm of zero; a power can be too large, or a complex number.
Such an operation is an `Except Fault`.

Behind a guard, none of them fails:

* `guardedPeriodic_sin`, `guardedPeriodic_cos`, `guardedPeriodic_tan` — infinite angles are taken
  out first.
* `guardedLogarithm_eq` — so are zero and the numbers below it.
* `guardedPower_eq` — a power is attempted, and each way in which it can fail is caught.

The guarded operations are the elementary functions and powers of this library.
-/

namespace SymCalc.Double

open Float.Model UnpackedFloat

/-- Why an operation has no result. -/
inductive Fault where
  | zeroDivision
  | overflow
  | domain

variable {x base exponent : Float}

/-! ## Division and elementary functions -/

/-- The quotient of two doubles, unless the divisor is zero. -/
def quotient (a b : Float) : Except Fault Float :=
  if b == 0.0 then .error .zeroDivision else .ok (a / b)

/-- A periodic function, unless the angle is infinite. -/
def periodic (f : Float → Float) (x : Float) : Except Fault Float :=
  if x.isInf then .error .domain else .ok (f x)

/-- The natural logarithm of a number above zero, or of not-a-number. -/
def logarithm (x : Float) : Except Fault Float :=
  if x == 0.0 ∨ x < 0.0 then .error .domain else .ok x.log

/-- A double over the natural logarithm of a whole number. That logarithm exists above zero, and
is zero for one. -/
def overLogarithm (a : Float) (n : ℤ) : Except Fault Float :=
  match lnOfInt n with
  | .error _ => .error .domain
  | .ok d => if n = 1 then .error .zeroDivision else .ok (a / d)

/-- A periodic function is asked only at angles that are not infinite. -/
def guardedPeriodic (f : Float → Float) (x : Float) : Except Fault Float :=
  if x.isInf then .ok notANumber else periodic f x

/-- A logarithm is asked only above zero. -/
def guardedLogarithm (x : Float) : Except Fault Float :=
  if x == 0.0 then .ok (-infinity) else if x < 0.0 then .ok notANumber else logarithm x

theorem beq_zero_of_isInf (h : x.isInf) : ¬(x == 0.0) = true := by
  intro hzero
  obtain ⟨s, hs⟩ := beq_zero_iff.mp hzero
  have h : (parts x).isInf = true := h
  rw [hs] at h
  cases h

theorem guardedPeriodic_eq {f : Float → Float} (hf : x.isInf → f x = notANumber) :
    guardedPeriodic f x = .ok (f x) := by
  rw [guardedPeriodic, periodic]
  split_ifs with h
  · rw [hf h]
  · rfl

theorem guardedPeriodic_sin (x : Float) : guardedPeriodic sin x = .ok (sin x) :=
  guardedPeriodic_eq fun h => by rw [sin, if_neg (beq_zero_of_isInf h), if_pos h]

theorem guardedPeriodic_cos (x : Float) : guardedPeriodic cos x = .ok (cos x) :=
  guardedPeriodic_eq fun h => by rw [cos, if_neg (beq_zero_of_isInf h), if_pos h]

theorem guardedPeriodic_tan (x : Float) : guardedPeriodic tan x = .ok (tan x) :=
  guardedPeriodic_eq fun h => by rw [tan, if_neg (beq_zero_of_isInf h), if_pos h]

theorem guardedLogarithm_eq (x : Float) : guardedLogarithm x = .ok (ln x) := by
  rw [guardedLogarithm, ln]
  split_ifs with hzero hneg
  · rfl
  · rfl
  · rw [logarithm, if_neg (by simp [hzero, hneg])]

theorem quotient_eq {a b : Float} (h : ¬(b == 0.0) = true) : quotient a b = .ok (a / b) := by
  rw [quotient, if_neg h]

/-- A whole number from two on has a logarithm to divide by. -/
theorem exists_overLogarithm (a : Float) {n : ℤ} (hn : 0 ≤ n) (h : ¬(n = 0 ∨ n = 1)) :
    ∃ d, lnOfInt n = .ok d ∧ overLogarithm a n = .ok (a / d) := by
  have hpos : ¬n ≤ 0 := by omega
  have hone : ¬n = 1 := fun h₁ => h (Or.inr h₁)
  have hln : ∃ d, lnOfInt n = .ok d := by
    rw [lnOfInt, if_neg hpos]
    split_ifs
    · exact ⟨_, rfl⟩
    · exact ⟨_, rfl⟩
  obtain ⟨d, hd⟩ := hln
  refine ⟨d, hd, ?_⟩
  rw [overLogarithm, hd]
  dsimp only
  rw [if_neg hone]

/-! ## Powers -/

/-- What a power of two doubles is. -/
inductive Power where
  | real (x : Float)
  | complex

/-- A result that is not too large. -/
def bounded (x : Float) : Except Fault Float :=
  if x = infinity then .error .overflow else .ok x

/-- A power of a finite base below zero. -/
def negativePower (base exponent : Float) : Except Fault Power :=
  if isWhole exponent then do
    let magnitude ← bounded (positivePow (-base) exponent)
    return .real (if isOdd exponent then -magnitude else magnitude)
  else if (positivePow (-base) exponent).isInf then .error .overflow
  else .ok .complex

/-- The power of two doubles, unless it is too large or a reciprocal of zero. -/
def power (base exponent : Float) : Except Fault Power :=
  if exponent == 0.0 then .ok (.real 1.0)
  else if base.isNaN then .ok (.real base)
  else if exponent.isNaN then .ok (.real (if base == 1.0 then 1.0 else exponent))
  else if exponent.isInf then .ok (.real (powInfinite base exponent))
  else if base.isInf then .ok (.real (infinitePow base exponent))
  else if base == 0.0 then
    if exponent < 0.0 then .error .zeroDivision
    else .ok (.real (if isOdd exponent then base else 0.0))
  else if base < 0.0 then negativePower base exponent
  else do return .real (← bounded (positivePow base exponent))

/-- The infinity with the sign of a double. -/
def infinityLike (x : Float) : Float :=
  match parts x with
  | .zero s | .infinity s | .finite s _ _ _ => ofParts (.infinity s)
  | .notANumber => infinity

/-- A power that is too large counts as infinite, and so does the reciprocal of a zero. A complex
power is not a number. -/
def caught (base exponent : Float) : Except Fault Power → Except Fault Float
  | .ok (.real x) => .ok x
  | .ok .complex => .ok notANumber
  | .error .zeroDivision | .error .overflow =>
    .ok (if isOdd exponent then infinityLike base else infinity)
  | .error .domain => .error .domain

/-- A power is attempted, and its failures are caught. -/
def guardedPower (base exponent : Float) : Except Fault Float :=
  caught base exponent (power base exponent)

theorem infinityLike_of_zero (h : (x == 0.0) = true) : infinityLike x = 1.0 / x := by
  rcases eq_of_beq_zero h with rfl | rfl
  · decide
  · decide

theorem infinityLike_of_negative (h : x < 0.0) : infinityLike x = -infinity := by
  have hneg : -infinity = ofParts (.infinity .negative) := rfl
  rw [hneg, infinityLike]
  rcases lt_zero_iff.mp h with hx | ⟨m, e, hm, hx⟩
  · rw [hx]
  · rw [hx]

theorem infinityLike_of_positive (hnan : ¬x.isNaN = true) (hzero : ¬(x == 0.0) = true)
    (hneg : ¬x < 0.0) : infinityLike x = infinity := by
  have hinf : infinity = ofParts (.infinity .positive) := rfl
  rw [hinf, infinityLike]
  rw [lt_zero_iff] at hneg
  cases hx : parts x with
  | notANumber =>
    have hnan' : ¬(parts x).isNaN = true := hnan
    rw [hx] at hnan'
    exact absurd rfl hnan'
  | zero s => exact absurd (beq_zero_iff.mpr ⟨s, hx⟩) hzero
  | infinity s =>
    cases s with
    | positive => rfl
    | negative => exact absurd (Or.inl hx) hneg
  | finite s m e hm =>
    cases s with
    | positive => rfl
    | negative => exact absurd (Or.inr ⟨m, e, hm, hx⟩) hneg

theorem isWhole_of_isOdd (h : isOdd exponent) : isWhole exponent := by
  rw [isOdd] at h
  rw [isWhole]
  cases hv : wholeValue? exponent with
  | none => simp [hv] at h
  | some n => rfl

theorem caught_bounded (f : Float → Float)
    (hf : f infinity = if isOdd exponent then infinityLike base else infinity) :
    caught base exponent (do return .real (f (← bounded x))) = .ok (f x) := by
  rw [bounded]
  split_ifs with hlarge
  · rw [hlarge, hf]
    rfl
  · rfl

theorem caught_negativePower (hneg : base < 0.0) :
    caught base exponent (negativePower base exponent) = .ok (negativePow base exponent) := by
  rw [negativePower, negativePow]
  by_cases hwhole : isWhole exponent
  · rw [if_pos hwhole, if_pos hwhole]
    refine caught_bounded (fun m => if isOdd exponent then -m else m) ?_
    rw [infinityLike_of_negative hneg]
  · have hodd : ¬isOdd exponent = true := fun h => hwhole (isWhole_of_isOdd h)
    rw [if_neg hwhole, if_neg hwhole]
    split_ifs
    · rw [caught, if_neg hodd]
    · rfl

theorem caught_ite {c : Prop} [Decidable c] {p q : Except Fault Power} {x y : Float}
    (hp : c → caught base exponent p = .ok x) (hq : ¬c → caught base exponent q = .ok y) :
    caught base exponent (if c then p else q) = .ok (if c then x else y) := by
  split_ifs with h
  · exact hp h
  · exact hq h

/-- **Behind its guard a power never fails.** -/
theorem guardedPower_eq (base exponent : Float) :
    guardedPower base exponent = .ok (pow base exponent) := by
  refine caught_ite (fun _ => rfl) fun _ => ?_
  refine caught_ite (fun _ => rfl) fun hnan => ?_
  refine caught_ite (fun _ => rfl) fun _ => ?_
  refine caught_ite (fun _ => rfl) fun _ => ?_
  refine caught_ite (fun _ => rfl) fun _ => ?_
  refine caught_ite (fun hzero => ?_) fun hzero => ?_
  · refine caught_ite (fun _ => ?_) fun _ => rfl
    rw [caught, infinityLike_of_zero hzero]
  refine caught_ite caught_negativePower fun hneg => ?_
  refine caught_bounded id ?_
  rw [infinityLike_of_positive hnan hzero hneg, ite_self]
  rfl

end SymCalc.Double
