import SymCalc.Polynomial.Basic
import SymCalc.Reading

/-!
# Polynomials in writing

A polynomial is written with its highest power first: `3x^2 - x + 1`. Terms with the coefficient
zero are left out, and so is the coefficient one before `x`.

It is read from terms in any order, each with a sign but the first, which may have one:
`[sign] [coefficient] [[*] x [^ power]]`, where the coefficient or `x` may be missing but not both.
Terms of the same power are added up in their order. Digits may come from any script, and blanks
do not count.

* `Polynomial.render` and `Polynomial.describe` write, `Polynomial.parse` reads.
-/

namespace SymCalc

open Text

namespace Polynomial

/-! ## Writing -/

/-- The magnitude of a term. -/
def termText (t : Nat × Float) : String :=
  let magnitude := numberText t.2.abs
  match t.1 with
  | 0 => magnitude
  | k + 1 =>
    (if magnitude = "1" then "" else magnitude)
      ++ (if k = 0 then "x" else "x^" ++ natText (k + 1))

/-- The first term that is written. -/
def firstTerm (t : Nat × Float) : String :=
  (if t.2 < 0.0 then "-" else "") ++ termText t

/-- A term after others. -/
def nextTerm (t : Nat × Float) : String :=
  (if t.2 < 0.0 then " - " else " + ") ++ termText t

/-- The canonical text of a polynomial. -/
def render (p : Polynomial) : String :=
  match p.terms.reverse with
  | [] => "0"
  | t :: ts => String.join (firstTerm t :: ts.map nextTerm)

/-- The coefficients, lowest power first. -/
def describe (p : Polynomial) : String :=
  "Polynomial([" ++ ", ".intercalate (p.coefficients.map floatText) ++ "])"

/-! ## Reading -/

/-- Whether a character is a digit of some script. -/
def isDigit (c : Char) : Bool :=
  (digitValue? c).isSome

/-- A term as it is written. -/
structure Term where
  /-- The sign, if there is one; the flag is set by a minus sign. -/
  sign : Option Bool
  /-- The digits and the point of the coefficient; empty if it is left out. -/
  coefficient : List Char
  /-- The digits of the power, which may be left out after `x`; nothing if there is no `x`. -/
  power : Option (List Char)

/-- Splits a sign off. -/
def signSpan : List Char → Option Bool × List Char
  | '-' :: s => (some true, s)
  | '+' :: s => (some false, s)
  | s => (none, s)

/-- Splits a coefficient off: digits, perhaps with a point after or among them, or a point and
digits. -/
def coefficientSpan (s : List Char) : List Char × List Char :=
  let whole := s.takeWhile isDigit
  match s.dropWhile isDigit with
  | '.' :: t =>
    if whole = [] ∧ t.takeWhile isDigit = [] then ([], s)
    else (whole ++ '.' :: t.takeWhile isDigit, t.dropWhile isDigit)
  | t => (whole, t)

/-- Splits a power off: a caret and digits. -/
def powerSpan (s : List Char) : List Char × List Char :=
  match s with
  | '^' :: t =>
    if t.takeWhile isDigit = [] then ([], s) else (t.takeWhile isDigit, t.dropWhile isDigit)
  | _ => ([], s)

/-- Splits `x` with its power off, with or without a star before it. -/
def variableSpan (s : List Char) : Option (List Char) × List Char :=
  match s with
  | 'x' :: t => (some (powerSpan t).1, (powerSpan t).2)
  | '*' :: 'x' :: t => (some (powerSpan t).1, (powerSpan t).2)
  | _ => (none, s)

theorem length_signSpan (s : List Char) : (signSpan s).2.length ≤ s.length := by
  unfold signSpan
  split <;> simp

theorem length_coefficientSpan (s : List Char) :
    (coefficientSpan s).1.length + (coefficientSpan s).2.length = s.length := by
  have split_length : ∀ t : List Char,
      (t.takeWhile isDigit).length + (t.dropWhile isDigit).length = t.length := fun t => by
    rw [← List.length_append, List.takeWhile_append_dropWhile]
  have hs := split_length s
  unfold coefficientSpan
  dsimp only
  split
  · rename_i t h
    have ht := split_length t
    rw [h] at hs
    split
    · simp
    · simp only [List.length_append, List.length_cons] at hs ⊢
      omega
  · exact hs

theorem length_powerSpan (s : List Char) : (powerSpan s).2.length ≤ s.length := by
  unfold powerSpan
  split
  · rename_i t
    have := (List.dropWhile_suffix (l := t) isDigit).length_le
    split
    · simp
    · simp only [List.length_cons]
      omega
  · simp

theorem length_variableSpan (s : List Char) :
    (variableSpan s).2.length + (if (variableSpan s).1.isSome then 1 else 0) ≤ s.length := by
  unfold variableSpan
  split
  · rename_i t
    have := length_powerSpan t
    simp
    omega
  · rename_i t
    have := length_powerSpan t
    simp
    omega
  · simp

/-- Splits a term off. -/
def termSpan (s : List Char) : Term × List Char :=
  let (sign, t) := signSpan s
  let (coefficient, u) := coefficientSpan t
  let (power, v) := variableSpan u
  (⟨sign, coefficient, power⟩, v)

theorem length_termSpan {s : List Char}
    (h : ¬((termSpan s).1.coefficient = [] ∧ (termSpan s).1.power = none)) :
    (termSpan s).2.length < s.length := by
  have h₁ := length_signSpan s
  have h₂ := length_coefficientSpan (signSpan s).2
  have h₃ := length_variableSpan (coefficientSpan (signSpan s).2).2
  simp only [termSpan] at h ⊢
  by_cases hc : (coefficientSpan (signSpan s).2).1 = []
  · cases hp : (variableSpan (coefficientSpan (signSpan s).2).2).1 with
    | none => exact absurd ⟨hc, hp⟩ h
    | some ds => simp [hp] at h₃; omega
  · have := List.length_pos_iff.2 hc
    split at h₃ <;> omega

/-- Reads a term, which has a coefficient or `x`. -/
def readTerm : Reader Term := fun s =>
  if h : (termSpan s).1.coefficient = [] ∧ (termSpan s).1.power = none then
    .error (.at (match s with
      | [] => .endOfInput
      | c :: _ => .unexpectedInPolynomial c) s)
  else .ok ⟨(termSpan s).1, (termSpan s).2, length_termSpan h⟩

namespace Term

/-- The coefficient with its sign; one if it is left out. -/
def signedCoefficient (t : Term) : Float :=
  let c := ((Numeral.literal? (t.coefficient.map Numeral.toAscii)).map Decimal.toFloat).getD 1.0
  if t.sign = some true then -c else c

/-- The power of `x`: zero without `x` and one without a power. -/
def powerValue (t : Term) : Except NumeralError Nat :=
  match t.power with
  | none => .ok 0
  | some [] => .ok 1
  | some ds => Numeral.readDigits ds

end Term

/-- Reads all terms of a text; the flag tells whether the next one is the first. -/
def readTerms (isFirst : Bool) (s : List Char) : Except Stop (List (Nat × Float)) :=
  if s = [] then .ok []
  else
    match readTerm s with
    | .error stop => .error stop
    | .ok r =>
      if !isFirst && r.value.sign.isNone then .error (.at .missingTermSign s)
      else
        match r.value.powerValue with
        | .error e => .error (.numeral e)
        | .ok power =>
          (readTerms false r.rest).map ((power, r.value.signedCoefficient) :: ·)
termination_by s.length
decreasing_by exact r.shorter

/-- The polynomial that is the sum of terms: the coefficients of each power are added up in their
order. -/
def ofTerms (ts : List (Nat × Float)) : Polynomial :=
  let top := ts.foldl (fun m t => max m t.1) 0
  ofCoefficients <| (List.range (top + 1)).map fun k =>
    (ts.filter (·.1 = k)).foldl (fun sum t => sum + t.2) 0.0

/-- Reads a polynomial from the characters of a text without blanks. -/
def parseChars (text : List Char) : Except Error Polynomial :=
  if text = [] then .error (Stop.toError text (.at .emptyPolynomial []))
  else
    match readTerms true text with
    | .error stop => .error (stop.toError text)
    | .ok ts => .ok (ofTerms ts)

/-- Reads a polynomial; blanks do not count. -/
def parse (text : String) : Except Error Polynomial :=
  parseChars (withoutBlanks text)

end Polynomial

end SymCalc
