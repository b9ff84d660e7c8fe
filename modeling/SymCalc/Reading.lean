import SymCalc.Error

/-!
# Readings

A `Reader` takes something off the front of a list of characters, or stops and tells where. What
is left is shorter than the list (`Reading.shorter`), so that whoever reads on gets to the end.
-/

namespace SymCalc

/-- What was read from the front of `s`, and what is left. -/
structure Reading (α : Type) (s : List Char) where
  value : α
  rest : List Char
  shorter : rest.length < s.length

/-- Why reading stopped: at the front of `rest`, or with a numeral that cannot be used. -/
inductive Stop where
  | at (cause : ParseError.Cause) (rest : List Char)
  | numeral (e : NumeralError)

/-- Reads something from the front of a list of characters. -/
abbrev Reader (α : Type) := (s : List Char) → Except Stop (Reading α s)

namespace Reading

variable {α β : Type} {s : List Char}

/-- Applies a function to what was read. -/
def map (f : α → β) (r : Reading α s) : Reading β s :=
  ⟨f r.value, r.rest, r.shorter⟩

/-- What was read from a shorter list. -/
def lift {t : List Char} (r : Reading α t) (h : t.length ≤ s.length) : Reading α s :=
  ⟨r.value, r.rest, Nat.lt_of_lt_of_le r.shorter h⟩

/-- Takes the closing parenthesis off what is left. -/
def close (r : Reading α s) (cause : ParseError.Cause) : Except Stop (Reading α s) :=
  match h : r.rest with
  | ')' :: t => .ok ⟨r.value, t, by have := r.shorter; simp [h] at this; omega⟩
  | t => .error (.at cause t)

end Reading

theorem length_dropWhile_lt {p : Char → Bool} {c : Char} {s : List Char} (h : p c) :
    ((c :: s).dropWhile p).length < (c :: s).length := by
  have := (List.dropWhile_suffix (l := s) p).length_le
  simp [List.dropWhile, h]
  omega

/-- The error for a stop within a text without blanks. -/
def Stop.toError (text : List Char) : Stop → Error
  | .at cause rest => .parse (.atRest cause text rest)
  | .numeral e => .value (.numeral e)

end SymCalc
