/-!
# Blank characters

Blanks carry no meaning in the texts that this library reads: expressions and polynomials are
read without any of them, and lines and numbers may be surrounded by them.

* `isBlank_of_mem_withoutBlanks`: nothing that is left is a blank.
-/

namespace SymCalc.Text

/-- A first and a last code point. -/
abbrev Span := Nat × Nat

/-- Whether a character lies in one of the spans. -/
def within (spans : List Span) (c : Char) : Bool :=
  spans.any fun span => span.1 ≤ c.toNat && c.toNat ≤ span.2

/-- The spans of the blank characters. -/
def blanks : List Span :=
  [(0x09, 0x0d), (0x1c, 0x20), (0x85, 0x85), (0xa0, 0xa0), (0x1680, 0x1680), (0x2000, 0x200a),
    (0x2028, 0x2029), (0x202f, 0x202f), (0x205f, 0x205f), (0x3000, 0x3000)]

/-- Whether a character is a blank. -/
def isBlank (c : Char) : Bool :=
  within blanks c

/-- The characters of a text that are not blank. -/
def withoutBlanks (s : String) : List Char :=
  s.toList.filter fun c => !isBlank c

theorem isBlank_of_mem_withoutBlanks {s : String} {c : Char} (h : c ∈ withoutBlanks s) :
    isBlank c = false := by
  simpa using (List.mem_filter.1 h).2

/-- Cuts the characters in a class off both ends. -/
def trim (p : Char → Bool) (cs : List Char) : List Char :=
  ((cs.dropWhile p).reverse.dropWhile p).reverse

end SymCalc.Text
