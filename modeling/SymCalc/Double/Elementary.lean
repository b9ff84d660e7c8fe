import SymCalc.Double.Power
import SymCalc.Error

/-!
# Elementary functions of doubles

The sine, cosine, tangent and natural logarithm are defined for every double: an infinite angle
has no sine, and the logarithm of a number below zero is not a number. At zero their values are
written out.

The base of a logarithm is a whole number of any size; `logOfBase` is its natural logarithm.
-/

namespace SymCalc.Double

/-- The sine. -/
def sin (x : Float) : Float :=
  if x == 0.0 then x else if x.isInf then notANumber else x.sin

/-- The cosine. -/
def cos (x : Float) : Float :=
  if x == 0.0 then 1.0 else if x.isInf then notANumber else x.cos

/-- The tangent. -/
def tan (x : Float) : Float :=
  if x == 0.0 then x else if x.isInf then notANumber else x.tan

/-- The natural logarithm. -/
def ln (x : Float) : Float :=
  if x == 0.0 then -infinity else if x < 0.0 then notANumber else x.log

/-- The whole number of 53 bits nearest to `n / 2^shift`, ties to even. -/
def roundShift (n shift : Nat) : Nat :=
  let unit := Nat.pow 2 shift
  let twice := 2 * (n % unit)
  if unit < twice ∨ (twice = unit ∧ n / unit % 2 = 1) then n / unit + 1 else n / unit

/-- The natural logarithm of a number with more than 53 bits. With `n ≈ m · 2^e` and
`0.5 ≤ m < 1` it is `ln m + ln 2 · e`. -/
def lnLarge (n : Nat) : Float :=
  let e := n.log2 + 1
  let m := Float.ofNat (roundShift n (e - 53)) / Float.ofNat (Nat.pow 2 53)
  if m == 1.0 then Float.log 0.5 + Float.log 2.0 * Float.ofNat (e + 1)
  else m.log + Float.log 2.0 * Float.ofNat e

/-- The natural logarithm of a whole number, which must be positive. -/
def lnOfInt (n : Int) : Except ValueError Float :=
  if n ≤ 0 then .error .logarithmDomain
  else if (Float.ofInt n).isInf then .ok (lnLarge n.natAbs)
  else .ok (Float.log (Float.ofInt n))

end SymCalc.Double
