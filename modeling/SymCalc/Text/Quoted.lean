import SymCalc.Text.Printable

/-!
# Quoted text

How a text is shown inside a message. It stands in single quotes, or in double quotes when it
holds a single quote and no double quote. Within the quotes a backslash comes before the quote
and the backslash itself, and a character that cannot be printed is written as an escape.
-/

namespace SymCalc.Text

/-- The last `width` lower-case hexadecimal digits of a number. -/
def hex : Nat → Nat → List Char
  | 0, _ => []
  | width + 1, n => hex width (n / 16) ++ [Nat.digitChar (n % 16)]

/-- The quote that surrounds a text. -/
def quoteFor (cs : List Char) : Char :=
  if '\x27' ∈ cs ∧ '\x22' ∉ cs then '\x22' else '\x27'

/-- One character between quotes. -/
def escaped (quote c : Char) : List Char :=
  if c = quote ∨ c = '\x5c' then ['\x5c', c]
  else if c = '\t' then ['\x5c', 't']
  else if c = '\n' then ['\x5c', 'n']
  else if c = '\x0d' then ['\x5c', 'r']
  else if isPrintable c then [c]
  else if c.toNat < 0x100 then '\x5c' :: 'x' :: hex 2 c.toNat
  else if c.toNat < 0x10000 then '\x5c' :: 'u' :: hex 4 c.toNat
  else '\x5c' :: 'U' :: hex 8 c.toNat

/-- The quoted form of a list of characters. -/
def quotedChars (cs : List Char) : List Char :=
  quoteFor cs :: (cs.flatMap (escaped (quoteFor cs)) ++ [quoteFor cs])

/-- The quoted form of a text. -/
def quoted (s : String) : String :=
  String.ofList (quotedChars s.toList)

end SymCalc.Text
