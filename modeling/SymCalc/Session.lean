import SymCalc.Expr.Reader
import SymCalc.Samples
import SymCalc.Settings

/-!
# Sessions

In a session functions are made, numbered and asked about. The number of a function is drawn from a
counter (`Session.drawId`) once everything that can fail has been done.

* `Session.run` carries out one step.
-/

namespace SymCalc

/-- A function with its number. -/
structure NumberedFormula where
  id : Nat
  formula : Formula

/-- Its text with the number. -/
def NumberedFormula.text (f : NumberedFormula) : Except Error String := do
  return "f" ++ natText f.id ++ "(x) = " ++ (← f.formula.text)

/-- The functions made so far, in order, the number that is drawn next, and the simplifications that
were remembered. -/
structure Session where
  functions : List NumberedFormula
  nextId : Nat
  memo : Memo

namespace Session

/-- What a function is made from. -/
inductive Source where
  | text (s : String)
  | formula (f : Formula)

/-- One request. -/
inductive Step where
  | make (source : Source)
  | derivative (id : Int)
  | simplified (id : Int)
  | evaluate (id : Int) (x : Float)
  | show (id : Int)
  | sample (id : Int) (first last : Float) (count : Literal)
  | equal (id other : Int)
  | equalForeign (id : Int) (value : Literal)

/-- The answer to a request. -/
inductive Answer where
  /-- A new function: its number, and its numbered text if that can be written. -/
  | made (id : Nat) (text : Except Error String)
  | value (x : Float)
  /-- The text and the numbered text of a function. -/
  | shown (text numbered : String)
  | points (ps : List (Float × Float))
  | equality (equal sameHash : Bool)
  | foreign

/-- A computation in a session; what it changes stays changed when it fails. -/
abbrev Action := ExceptT Error (StateM Session)

/-- Nothing was made yet. -/
def empty : Session :=
  ⟨[], 1, .empty⟩

/-- The function with this number. -/
def find? (s : Session) (id : Int) : Option NumberedFormula :=
  s.functions.find? fun f => f.id = id

/-- The function with this number, which must exist. -/
def lookup (id : Int) : Action NumberedFormula := fun s =>
  match s.find? id with
  | some f => (.ok f, s)
  | none => (.error (.noSuchFunction id), s)

/-- Draws the next number. -/
def drawId : Action Nat := fun s =>
  (.ok s.nextId, { s with nextId := s.nextId + 1 })

/-- Keeps a function. -/
def keep (f : NumberedFormula) : Action Unit := fun s =>
  (.ok (), { s with functions := s.functions ++ [f] })

/-- Makes a function. -/
def define (f : Formula) : Action Answer := do
  let id ← drawId
  let numbered : NumberedFormula := ⟨id, f⟩
  keep numbered
  return .made id numbered.text

/-- Simplifies with the simplifications that the session remembers. -/
def tidy (ε : Float) (f : Formula) : Action Formula := fun s =>
  let (result, memo) := f.simplified ε s.memo
  (result, { s with memo := memo })

/-- The formula that a function is made from. -/
def Source.formula? (limit : Int) : Source → Except Error Formula
  | text s => (Expr.parse limit s).map .expr
  | formula f => .ok f

/-- Carries out a step. -/
def run (settings : Settings) : Step → Action Answer
  | .make source => do
    define (← source.formula? settings.nestingLimit)
  | .derivative id => do
    let f ← lookup id
    define (← tidy settings.epsilon (← f.formula.derivative))
  | .simplified id => do
    let f ← lookup id
    define (← tidy settings.epsilon f.formula)
  | .evaluate id x => do
    let f ← lookup id
    return .value (← f.formula.evaluate settings.epsilon x)
  | .show id => do
    let f ← lookup id
    return .shown (← f.formula.text) (← f.text)
  | .sample id first last count => do
    let f ← lookup id
    return .points (← SymCalc.sample settings.epsilon f.formula first last count)
  | .equal id other => do
    let f ← lookup id
    let g ← lookup other
    let text ← f.formula.text
    let other ← g.formula.text
    return .equality (text == other) (hash text == hash other)
  | .equalForeign id _ => do
    let _ ← lookup id
    return .foreign

end Session

end SymCalc
