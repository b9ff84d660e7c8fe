import SymCalc.Reading

/-!
# Reading expressions

The grammar, over the characters of a text that are not blank; `s` is a sign:

* `sum = [s] term₁ {(+|-) [s] term₀}`,
* `termₖ = powerₖ {(*|/) [s] power₁}`,
* `powerₖ = primaryₖ {^ [s] primary₁}`,
* `primary₁ = [s] atom` and `primary₀ = atom`,
* `atom = number | x | ( sum ) | log ( digits , sum ) | name ( sum )`.

All repetitions associate to the left. A sign wraps what it stands before. A number is a maximal
run of digits and points, a name a maximal run of letters that does not begin with `x`.

What is left after an operand is shorter, which is why the repetitions end. Recursion goes through
parentheses only, and each pair of them uses up one of the levels that are allowed.

* `Expr.parse` reads a whole text.
-/

namespace SymCalc

open Text

namespace Reader

/-- How to read between parentheses, or why they may not nest any deeper. -/
abbrev Nested := Except ParseError.Cause (Reader Expr)

/-- An optional sign before an operand. -/
def signed (operand : Reader Expr) : Reader Expr
  | c :: t =>
    match UnaryOp.ofSymbol? c with
    | some op => do
      let r ← operand t
      return (r.map (.unary op)).lift (by simp)
    | none => operand (c :: t)
  | [] => operand []

/-- Goes on with operations of one precedence and their right operands, as long as there are
any. -/
def extend (precedence : Nat) (operand : Reader Expr) {s : List Char} (left : Reading Expr s) :
    Except Stop (Reading Expr s) :=
  match h : left.rest with
  | [] => .ok left
  | c :: t =>
    match (BinaryOp.ofSymbol? c).filter (·.precedence = precedence) with
    | none => .ok left
    | some op =>
      match operand t with
      | .error e => .error e
      | .ok right =>
        extend precedence operand
          ⟨.binary op left.value right.value, right.rest,
            by have := left.shorter; have := right.shorter; simp [h] at *; omega⟩
termination_by left.rest.length
decreasing_by
  have := right.shorter
  simp [h]
  omega

/-- Operands with operations of one precedence between them, associated to the left. -/
def chain (precedence : Nat) (first operand : Reader Expr) : Reader Expr := fun s => do
  extend precedence operand (← first s)

/-- A number. -/
def number (c : Char) (t : List Char) (h : isAsciiDigit c || c == '.') :
    Except Stop (Reading Expr (c :: t)) :=
  let literal := (c :: t).takeWhile fun d => isAsciiDigit d || d == '.'
  match Numeral.literal? literal with
  | some d =>
    .ok ⟨.number d.toFloat, (c :: t).dropWhile fun d => isAsciiDigit d || d == '.',
      length_dropWhile_lt h⟩
  | none => .error (.at (.malformedNumber (String.ofList literal)) (c :: t))

/-- The base of a logarithm and the comma after it. -/
def logBase : Reader Int := fun s =>
  if s.takeWhile isAsciiDigit = [] then .error (.at .missingLogarithmBase s)
  else
    match Numeral.readDigits (s.takeWhile isAsciiDigit) with
    | .error e => .error (.numeral e)
    | .ok base =>
      match h : s.dropWhile isAsciiDigit with
      | ',' :: t =>
        .ok ⟨base, t,
          by
            have := (List.dropWhile_suffix (l := s) isAsciiDigit).length_le
            simp [h] at this
            omega⟩
      | t => .error (.at .missingLogarithmComma t)

/-- What follows a name and its opening parenthesis; `inside` reads the argument. -/
def arguments (name : String) (inside : Reader Expr) : Reader Expr := fun s => do
  if name = "log" then
    let base ← logBase s
    let argument ← inside base.rest
    ((argument.map (.call name (some base.value))).lift (Nat.le_of_lt base.shorter)).close
      .unclosedLogarithm
  else
    let argument ← inside s
    (argument.map (.call name none)).close (.unclosedCall name)

/-- Enters a pair of parentheses, if that is still allowed. -/
def enter (nested : Nested) (read : Reader Expr → Reader Expr) : Reader Expr := fun s =>
  match nested with
  | .ok inside => read inside s
  | .error cause => .error (.at cause s)

/-- The smallest operand. -/
def atom (nested : Nested) : Reader Expr
  | [] => .error (.at .endOfInput [])
  | c :: t =>
    if h : isAsciiDigit c || c == '.' then number c t h
    else if c = 'x' then .ok ⟨.var, t, by simp⟩
    else if c = '(' then do
      let r ← enter nested (fun inside s => do (← inside s).close .unclosedGroup) t
      return r.lift (by simp)
    else if h : isAsciiLetter c then
      match after : (c :: t).dropWhile isAsciiLetter with
      | '(' :: u => do
        let name := String.ofList ((c :: t).takeWhile isAsciiLetter)
        let r ← enter nested (arguments name) u
        return r.lift
          (by have := length_dropWhile_lt (s := t) h; simp [after] at this; simp; omega)
      | _ => .error (.at (.unexpectedCharacter c) (c :: t))
    else .error (.at (.unexpectedCharacter c) (c :: t))

/-- An atom, with a sign before it where the flag allows one. -/
def primary (nested : Nested) (allowSign : Bool) : Reader Expr :=
  if allowSign then signed (atom nested) else atom nested

/-- A chain of powers. -/
def power (nested : Nested) (allowSign : Bool) : Reader Expr :=
  chain 3 (primary nested allowSign) (signed (primary nested true))

/-- A chain of products and quotients. -/
def term (nested : Nested) (allowSign : Bool) : Reader Expr :=
  chain 2 (power nested allowSign) (signed (power nested true))

/-- A chain of sums and differences. The operation between two terms is itself a sign, so that
only one more may follow it. -/
def sum (nested : Nested) : Reader Expr :=
  chain 1 (signed (term nested true)) (signed (term nested false))

/-- An expression in which parentheses nest at most `levels` deep; `limit` is what a complaint
about deeper ones names. -/
def expression (limit : Int) (levels : Nat) : Reader Expr :=
  sum <|
    match levels with
    | 0 => .error (.nestedTooDeep limit)
    | n + 1 => .ok (expression limit n)

@[simp] theorem expression_zero (limit : Int) :
    expression limit 0 = sum (.error (.nestedTooDeep limit)) := rfl

@[simp] theorem expression_succ (limit : Int) (n : Nat) :
    expression limit (n + 1) = sum (.ok (expression limit n)) := rfl

end Reader

/-- Reads an expression from the characters of a text without blanks. -/
def Expr.parseChars (limit : Int) (text : List Char) : Except Error Expr :=
  match Reader.expression limit limit.toNat text with
  | .error stop => .error (stop.toError text)
  | .ok r =>
    if r.rest = [] then .ok r.value
    else .error (Stop.toError text (.at .trailingInput r.rest))

/-- Reads an expression; blanks do not count, and parentheses nest at most `limit` deep. -/
def Expr.parse (limit : Int) (text : String) : Except Error Expr :=
  parseChars limit (withoutBlanks text)

end SymCalc
