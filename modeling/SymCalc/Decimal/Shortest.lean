import SymCalc.Decimal.Basic

/-!
# Shortest digits

The decimal that is written for a double: it has the fewest digits that read back as the same
double, and of those with equally many digits it is the nearest to the double.

On the grid of `n` digits only the two neighbours of the exact value need a test: if any point of
the grid reads back as the double, one of them does.

* `toFloat_shortestOf`: what is written reads back, when the exact value does.
-/

namespace SymCalc.Decimal

/-- The decimal with `k` digits less than `d` that reads back as `x`, the nearer of two. -/
def reading? (x : Float) (d : Decimal) (k : Nat) : Option Decimal :=
  let down := d.roundDown k
  let up := d.roundUp k
  if down.toFloat = x then
    if up.toFloat = x then some (if d.goesDown k then down else up) else some down
  else if up.toFloat = x then some up
  else none

/-- The decimal of the fewest digits, at most seventeen, that reads back as `x`. -/
def shortest? (x : Float) (d : Decimal) : Option Decimal :=
  let width := d.width
  (List.range 17).findSome? fun n => reading? x d (width - (n + 1))

/-- The shortest decimal that reads back as the double `x`, whose exact value is `d`. Seventeen
digits tell all doubles apart. -/
def shortestOf (x : Float) (d : Decimal) : Decimal :=
  (shortest? x d).getD d

theorem toFloat_of_reading? {x : Float} {d r : Decimal} {k : Nat} (h : reading? x d k = some r) :
    r.toFloat = x := by
  simp only [reading?] at h
  split at h
  · split at h <;> cases h
    · split <;> assumption
    · assumption
  · split at h <;> cases h
    assumption

theorem toFloat_shortestOf {x : Float} {d : Decimal} (h : d.toFloat = x) :
    (shortestOf x d).toFloat = x := by
  unfold shortestOf
  cases found : shortest? x d with
  | none => exact h
  | some r =>
    obtain ⟨n, _, hn⟩ := List.exists_of_findSome?_eq_some found
    exact toFloat_of_reading? hn

end SymCalc.Decimal
