import SymCalc.Expr.Derivative
import SymCalc.Expr.Memo
import SymCalc.Expr.Reader
import SymCalc.Settings

/-!
# The console

A line holds an expression and perhaps a value of `x` after the last `@`. The answer to it is the
canonical text, the simplified form and the simplified derivative, and with a value also the
function and its derivative there. A line that cannot be answered gets a message, and a text that
cannot be read also a caret under the place in question.

Expressions that are read, and the forms that are shown of them, can always be written.

* `Console.answer` answers one line.
* `Console.respond` gives the block that is printed for a line, also when it fails.
* `Console.run` is the whole dialogue.
-/

namespace SymCalc.Console

open Text

/-- Splits a line at its last `@` into an expression and a value. -/
def splitLine (line : String) : Except Error (String × Option Float) :=
  let backwards := line.toList.reverse
  match backwards.dropWhile (· != '@') with
  | [] => .ok (line, none)
  | _ :: before => do
    let value := (backwards.takeWhile (· != '@')).reverse
    let x ← Error.ofNumeral (Numeral.readFloat (String.ofList value))
    return (String.ofList before.reverse, some x)

/-- The line about the value at `x` of the function with this label. -/
def valueLine (ε x : Float) (label : String) (e : Expr) : Except Error String :=
  let start := " " ++ label ++ "(" ++ numberText x ++ ") = "
  match e.evaluate ε x with
  | .ok y => .ok (start ++ numberText y)
  | .error (.evaluation failure) => .ok (start ++ "? (" ++ failure.message ++ ")")
  | .error other => .error other

/-- The answer to a line. -/
def answer (s : Settings) (line : String) : Remembering (List String) := do
  let (text, x?) ← splitLine line
  let e ← Expr.parse s.nestingLimit text
  let derivative ← (← e.derivative).simplifyRemembering s.epsilon
  let simplified ← e.simplifyRemembering s.epsilon
  let forms :=
    [" >  " ++ e.render, " =  " ++ simplified.render, " d/dx  " ++ derivative.render]
  match x? with
  | none => return forms
  | some x =>
    return forms
      ++ [← valueLine s.epsilon x "f" e, ← valueLine s.epsilon x "f\x27" derivative]

/-- What is printed for a line, and the failure that ends the dialogue there. -/
structure Block where
  output : String
  failure : Option Error

/-- Lines of text, each ended. -/
def endLines (lines : List String) : String :=
  String.join (lines.map (· ++ "\n"))

/-- The block for a failure. A text that cannot be read is shown without its blanks, with a caret
below. Failures that are not due to the line end the dialogue. -/
def failureBlock (line : String) (error : Error) : Block :=
  let message := " !  " ++ error.message
  match error with
  | .parse e =>
    ⟨endLines [message, "    " ++ String.ofList (withoutBlanks line),
      "    " ++ String.ofList (List.replicate e.position ' ' ++ ['^']), ""], none⟩
  | .evaluation _ | .value _ => ⟨endLines [message, ""], none⟩
  | _ => ⟨"", some error⟩

/-- The block for a line: nothing if it is blank. -/
def respond (s : Settings) (line : String) : StateM Memo Block := fun memo =>
  if withoutBlanks line = [] then (⟨"", none⟩, memo)
  else
    match answer s line memo with
    | (.ok lines, memo) => (⟨endLines (lines ++ [""]), none⟩, memo)
    | (.error e, memo) => (failureBlock line e, memo)

/-- What is printed before a line is read. -/
def prompt : String :=
  " ~ "

/-- The dialogue over the lines that are left. -/
def dialogue (s : Settings) (memo : Memo) : List String → Block
  | [] => ⟨prompt ++ "\n", none⟩
  | line :: lines =>
    let (block, memo) := respond s line memo
    match block.failure with
    | some e => ⟨prompt ++ block.output, some e⟩
    | none =>
      let rest := dialogue s memo lines
      ⟨prompt ++ (block.output ++ rest.output), rest.failure⟩

/-- The whole dialogue. It does not begin if the level of logging is unknown. -/
def run (s : Settings) (lines : List String) : Block :=
  match s.checkedLevel with
  | .error e => ⟨"", some e⟩
  | .ok _ => dialogue s .empty lines

/-- The lines of an input; the last one need not be ended. -/
def inputLines (input : String) : List String :=
  let pieces := input.splitOn "\n"
  if pieces.getLast? = some "" then pieces.dropLast else pieces

end SymCalc.Console
