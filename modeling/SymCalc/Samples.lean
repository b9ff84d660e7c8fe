import SymCalc.Formula

/-!
# Samples of functions

A function is sampled at evenly spaced points of an interval, both ends included. A point at
which the function has no value gets the value not-a-number, and the other points are not
affected.

* `gridPoint` gives the points, the last of them being exactly the end of the interval
  (`gridPoint_last`).
* `sample` refuses an empty interval first and then a count of points below two.
-/

namespace SymCalc

/-- The point with the number `i` of a grid of `parts` equal parts from `first` to `last`. When
the parts are too small for a double, the place within the interval is scaled instead. -/
def gridPoint (first last : Float) (parts i : Nat) : Float :=
  let delta := last - first
  let step := delta / Float.ofNat parts
  if i = parts then last
  else if step == 0.0 then Float.ofNat i / Float.ofNat parts * delta + first
  else Float.ofNat i * step + first

/-- The `count` points of a grid. -/
def grid (first last : Float) (count : Nat) : List Float :=
  (List.range count).map (gridPoint first last (count - 1))

@[simp] theorem gridPoint_last (first last : Float) (parts : Nat) :
    gridPoint first last parts parts = last := by
  simp [gridPoint]

@[simp] theorem length_grid (first last : Float) (count : Nat) :
    (grid first last count).length = count := by
  simp [grid]

/-- A count of points is a whole number from two on. -/
def pointCount? : Literal → Option Nat
  | .int n => if 2 ≤ n then some n.toNat else none
  | _ => none

/-- A point with the value of the function there. -/
def samplePoint (ε : Float) (f : Formula) (x : Float) : Except Error (Float × Float) :=
  match f.evaluate ε x with
  | .ok y => .ok (x, y)
  | .error (.evaluation _) => .ok (x, Double.notANumber)
  | .error other => .error other

/-- Samples a function at `count` points from `first` to `last`. -/
def sample (ε : Float) (f : Formula) (first last : Float) (count : Literal) :
    Except Error (List (Float × Float)) :=
  if last < first then .error (.value (.emptyInterval first last))
  else
    match pointCount? count with
    | none => .error (.value (.ofCount count))
    | some n => (grid first last n).mapM (samplePoint ε f)

end SymCalc
