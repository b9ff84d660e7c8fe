import SymCalc.Error
import SymCalc.Text.Uppercase

/-!
# Settings

What can be set from outside: the division epsilon, how deep parentheses may nest, and the level
of logging. Each setting has a text or keeps its standard value; the first text that is unusable,
in that order, is the one that is reported.
-/

namespace SymCalc

/-- The settings of a calculation. -/
structure Settings where
  /-- Divisors of a smaller magnitude count as zero. -/
  epsilon : Float
  /-- How deep parentheses and calls may nest. -/
  nestingLimit : Int
  logLevel : String

namespace Settings

/-- The settings when nothing is set. -/
def standard : Settings :=
  ⟨1e-10, 100, "WARNING"⟩

/-- The settings with these texts in place of the standard ones. -/
def read (epsilon nestingLimit logLevel : Option String) : Except Error Settings := do
  let ε ← match epsilon with
    | some text => Error.ofNumeral (Numeral.readFloat text)
    | none => pure standard.epsilon
  let limit ← match nestingLimit with
    | some text => Error.ofNumeral (Numeral.readInt text)
    | none => pure standard.nestingLimit
  return ⟨ε, limit, Text.upper (logLevel.getD standard.logLevel)⟩

/-- The levels of logging. -/
def logLevels : List String :=
  ["CRITICAL", "FATAL", "ERROR", "WARN", "WARNING", "INFO", "DEBUG", "NOTSET"]

/-- The level of logging, which must be a known one. -/
def checkedLevel (s : Settings) : Except Error String :=
  if s.logLevel ∈ logLevels then .ok s.logLevel else .error (.value (.unknownLevel s.logLevel))

end Settings

end SymCalc
