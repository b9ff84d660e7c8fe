import SymCalc.Double.Basic

/-!
# Powers of doubles

The real power of two doubles. Where there is no real power the result is not a number, and
where the power is too large it is infinite, with the sign that the power would have.

Whether an exponent is whole, and whether it is odd, is decided exactly on its binary form
(`wholeValue?`). The result depends on the library power only for a positive finite base other
than one and a finite exponent other than zero and one. Which library that is (`PowerLibrary`) is
left open; unless another one is given, it is the one behind `Float`.
-/

namespace SymCalc.Double

/-- The library power of a positive finite base. -/
class PowerLibrary where
  pow : Float → Float → Float

instance : PowerLibrary :=
  ⟨Float.pow⟩

open Float.Model UnpackedFloat in
/-- The whole number that a double is equal to. -/
def wholeValue? (x : Float) : Option Int :=
  match x.toModel.unpack with
  | .zero _ => some 0
  | .finite sign m e _ =>
    if 0 ≤ e then some (signed sign (m * Nat.pow 2 e.natAbs))
    else if m % Nat.pow 2 e.natAbs = 0 then some (signed sign (m / Nat.pow 2 e.natAbs))
    else none
  | .infinity _ | .notANumber => none
where
  /-- A magnitude with its sign. -/
  signed : Sign → Nat → Int
    | .positive, n => n
    | .negative, n => -n

/-- Whether a double is a whole number. -/
def isWhole (x : Float) : Bool :=
  (wholeValue? x).isSome

/-- Whether a double is an odd whole number. -/
def isOdd (x : Float) : Bool :=
  (wholeValue? x).any (· % 2 = 1)

/-- An infinite exponent: only the magnitude of the base counts. -/
def powInfinite (base exponent : Float) : Float :=
  if base.abs == 1.0 then 1.0
  else if (0.0 < exponent) = (1.0 < base.abs) then infinity
  else 0.0

/-- An infinite base and a finite exponent other than zero. -/
def infinitePow (base exponent : Float) : Float :=
  if 0.0 < exponent then (if isOdd exponent then base else infinity)
  else if isOdd exponent ∧ base < 0.0 then -0.0
  else 0.0

/-- A zero base and a finite exponent other than zero. The sign of the zero matters for odd
exponents. -/
def zeroPow (base exponent : Float) : Float :=
  if exponent < 0.0 then
    if isOdd exponent then 1.0 / base else infinity
  else if isOdd exponent then base
  else 0.0

section

variable [PowerLibrary]

/-- A positive finite base and a finite exponent other than zero. -/
def positivePow (base exponent : Float) : Float :=
  if base == 1.0 then 1.0
  else if exponent == 1.0 then base
  else PowerLibrary.pow base exponent

/-- A finite base below zero and a finite exponent other than zero. A fractional power is not
real; one whose magnitude is too large counts as infinite. -/
def negativePow (base exponent : Float) : Float :=
  if isWhole exponent then
    let magnitude := positivePow (-base) exponent
    if isOdd exponent then -magnitude else magnitude
  else if (positivePow (-base) exponent).isInf then infinity
  else notANumber

/-- The power of two doubles. -/
def pow (base exponent : Float) : Float :=
  if exponent == 0.0 then 1.0
  else if base.isNaN then base
  else if exponent.isNaN then (if base == 1.0 then 1.0 else exponent)
  else if exponent.isInf then powInfinite base exponent
  else if base.isInf then infinitePow base exponent
  else if base == 0.0 then zeroPow base exponent
  else if base < 0.0 then negativePow base exponent
  else positivePow base exponent

end

end SymCalc.Double
