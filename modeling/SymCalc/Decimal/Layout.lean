import SymCalc.Decimal.Shortest

/-!
# Layout of numbers

A double is written with its shortest digits. A `Layout` decides the rest: which magnitudes have
their point in place, and what follows a whole number. A negative number, the negative zero and
the negative infinity begin with a minus sign.

* `Layout.plain` is for numbers in expressions and messages: always positional, `2` and `0.5`.
* `Layout.general` is for exchanging doubles: `2.0`, `0.5`, `1e+16`, `1e-05`.

Whole numbers have a text whatever their size. Where one is asked for, a number beyond
`digitLimit` digits is refused.
-/

namespace SymCalc

/-- The decisions about a written number. -/
structure Layout where
  /-- Whether a number whose first digit counts `10^k` is written without an exponent. -/
  positional : Int → Bool
  /-- What follows a whole number that is written without an exponent. -/
  wholeSuffix : List Char

namespace Layout

/-- Never an exponent, and nothing after a whole number. -/
def plain : Layout :=
  ⟨fun _ => true, []⟩

/-- An exponent below `10⁻⁴` and from `10¹⁶` on; a whole number ends in `.0`. -/
def general : Layout :=
  ⟨fun k => -4 ≤ k && k < 16, ['.', '0']⟩

/-- The digits with the point in place. -/
def inPlace (l : Layout) (d : Decimal) : List Char :=
  let ds := decimalDigits d.digits
  match d.exponent with
  | .ofNat e => ds ++ List.replicate e '0' ++ l.wholeSuffix
  | .negSucc e =>
    let places := e + 1
    if places < ds.length then
      ds.take (ds.length - places) ++ '.' :: ds.drop (ds.length - places)
    else '0' :: '.' :: (List.replicate (places - ds.length) '0' ++ ds)

/-- An exponent of ten: a sign and at least two digits. -/
def exponentText (k : Int) : List Char :=
  let ds := decimalDigits k.natAbs
  (if k < 0 then '-' else '+') :: (if ds.length < 2 then '0' :: ds else ds)

/-- One digit, a point and the other digits if there are any, and the exponent. -/
def withExponent (d : Decimal) : List Char :=
  match decimalDigits d.digits with
  | [] => []
  | [c] => c :: 'e' :: exponentText d.leading
  | c :: cs => c :: '.' :: (cs ++ 'e' :: exponentText d.leading)

/-- A decimal as the layout has it. -/
def decimal (l : Layout) (d : Decimal) : List Char :=
  if l.positional d.leading then l.inPlace d else withExponent d

open Float.Model UnpackedFloat in
/-- The text of a double. -/
def chars (l : Layout) (x : Float) : List Char :=
  match x.toModel.unpack with
  | .notANumber => ['n', 'a', 'n']
  | .infinity s => sign s ++ ['i', 'n', 'f']
  | .zero s => sign s ++ l.decimal ⟨0, 0⟩
  | .finite s m e _ => sign s ++ l.decimal (Decimal.shortestOf x.abs (.ofBinary m e)).trimZeros
where
  /-- The minus sign of a negative number. -/
  sign : Sign → List Char
    | .positive => []
    | .negative => ['-']

end Layout

/-- A number as it stands in expressions and messages. -/
def numberText (x : Float) : String :=
  String.ofList (Layout.plain.chars x)

/-- A double as it is exchanged. -/
def floatText (x : Float) : String :=
  String.ofList (Layout.general.chars x)

/-- How many digits a whole number may have where it is read or written. -/
def digitLimit : Nat := 4300

/-- Whether a whole number has no more digits than that. -/
def withinDigitLimit (n : Int) : Bool :=
  n.natAbs < Nat.pow 10 digitLimit

/-- A natural number. -/
def natText (n : Nat) : String :=
  String.ofList (decimalDigits n)

/-- A whole number. -/
def intText : Int → String
  | .ofNat n => natText n
  | .negSucc n => "-" ++ natText (n + 1)

end SymCalc
