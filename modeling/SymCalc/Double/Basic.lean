/-!
# Special doubles

The two values that stand for results which are no numbers.
-/

namespace SymCalc.Double

/-- Not a number. -/
def notANumber : Float := 0.0 / 0.0

/-- Positive infinity. -/
def infinity : Float := 1.0 / 0.0

end SymCalc.Double
