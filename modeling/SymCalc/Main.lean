import SymCalc.Console

/-!
# The program

Reads the settings from the environment and holds the dialogue on standard input and output.
-/

namespace SymCalc.Console

/-- Answers the lines of an input until it ends or the dialogue fails. -/
partial def converse (settings : Settings) (input output : IO.FS.Stream) (memo : Memo) :
    IO UInt32 := do
  output.putStr prompt
  output.flush
  let line ← input.getLine
  if line.isEmpty then
    output.putStrLn ""
    return 0
  let text := if line.endsWith "\n" then String.ofList line.toList.dropLast else line
  let (block, memo) := respond settings text memo
  output.putStr block.output
  match block.failure with
  | some e => IO.eprintln e.message; return 1
  | none => converse settings input output memo

end SymCalc.Console

open SymCalc in
def main : IO UInt32 := do
  let settings := Settings.read (← IO.getEnv "UNIVAR_DIVISION_EPSILON")
    (← IO.getEnv "UNIVAR_MAX_DEPTH") (← IO.getEnv "UNIVAR_LOG_LEVEL")
  match settings.bind fun s => s.checkedLevel.map fun _ => s with
  | .error e => IO.eprintln e.message; return 1
  | .ok s => Console.converse s (← IO.getStdin) (← IO.getStdout) .empty
