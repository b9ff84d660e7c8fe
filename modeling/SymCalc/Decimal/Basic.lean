import SymCalc.Text.DecimalDigit

/-!
# Decimals

An unsigned decimal is a natural number times a power of ten. Every finite double is one exactly,
since `2⁻¹ = 5 · 10⁻¹`; conversely a decimal stands for the double nearest to it.

* `Decimal.trimZeros` is the form without zeros at the end. It depends on the value only
  (`trimZeros_shift`), and so does everything that is defined through it.
* `Decimal.toFloat` is the nearest double, ties to even, infinite when out of range.
* `Decimal.ofBinary` is the exact decimal of `m · 2^e`.
* `Decimal.roundDown` and `Decimal.roundUp` are the two neighbours of a decimal with fewer digits.
-/

namespace SymCalc

/-- The number `digits · 10^exponent`. -/
structure Decimal where
  digits : Nat
  exponent : Int
deriving DecidableEq

/-- The decimal digits of a number, most significant first; zero has one digit. -/
def decimalDigits (n : Nat) : List Char :=
  Nat.toDigits 10 n

/-- The number that a run of ASCII digits denotes; no digits denote zero. -/
def natOfDigits (cs : List Char) : Nat :=
  cs.foldl (fun n c => 10 * n + (c.toNat - '0'.toNat)) 0

namespace Decimal

/-- The same value without zeros at the end of its digits; zero has the exponent zero. -/
def trimZeros (d : Decimal) : Decimal :=
  if d.digits = 0 then ⟨0, 0⟩
  else if d.digits % 10 = 0 then trimZeros ⟨d.digits / 10, d.exponent + 1⟩
  else d
termination_by d.digits
decreasing_by omega

@[simp] theorem trimZeros_zero (e : Int) : trimZeros ⟨0, e⟩ = ⟨0, 0⟩ := by
  rw [trimZeros]
  rfl

theorem trimZeros_shift (n : Nat) (e : Int) : trimZeros ⟨10 * n, e⟩ = trimZeros ⟨n, e + 1⟩ := by
  by_cases h : n = 0
  · simp [h]
  · rw [trimZeros, if_neg (show ¬10 * n = 0 by omega), if_pos (by simp)]
    simp

/-- The double nearest to a decimal. -/
def toFloat (d : Decimal) : Float :=
  let t := d.trimZeros
  .ofModel (.ofScientific t.digits t.exponent)

/-- How many digits the decimal has. -/
def width (d : Decimal) : Nat :=
  (decimalDigits d.digits).length

/-- The power of ten of the first digit: the value lies in `[10^k, 10^(k+1))`. -/
def leading (d : Decimal) : Int :=
  d.width + d.exponent - 1

/-- The exact value of `m · 2^e`. -/
def ofBinary (m : Nat) (e : Int) : Decimal :=
  if e < 0 then ⟨m * Nat.pow 5 e.natAbs, e⟩ else ⟨m * Nat.pow 2 e.natAbs, 0⟩

/-- `d` without its last `k` digits. -/
def roundDown (d : Decimal) (k : Nat) : Decimal :=
  ⟨d.digits / Nat.pow 10 k, d.exponent + k⟩

/-- The next decimal after `roundDown` on the same grid. -/
def roundUp (d : Decimal) (k : Nat) : Decimal :=
  ⟨d.digits / Nat.pow 10 k + 1, d.exponent + k⟩

/-- Whether `d` is nearer to `roundDown k` than to `roundUp k`; of two equally near neighbours the
one with an even last digit is taken. -/
def goesDown (d : Decimal) (k : Nat) : Bool :=
  let unit := Nat.pow 10 k
  let twice := 2 * (d.digits % unit)
  twice < unit || (twice == unit && d.digits / unit % 2 == 0)

end Decimal

end SymCalc
