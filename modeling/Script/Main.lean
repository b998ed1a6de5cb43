/-
# The program

Reads arguments, files and lines, and prints what the command line says.
-/

import Script.CommandLine

namespace Script.CommandLine

/-- Print what a run gives, and end with its status. -/
def deliver (report : Option Report) : IO UInt32 := do
  match report with
  | none => return 2
  | some report =>
    IO.print report.output
    IO.eprint report.errors
    return report.status

/-- Read a file, if it can be read. -/
def contentOf (name : String) : IO (Option String) := do
  try
    return some (← IO.FS.readFile name)
  catch _ =>
    return none

/-- Read lines and answer each, until they end or one of them leaves. -/
partial def serve (input : IO.FS.Stream) (session : Session) : IO UInt32 := do
  IO.print promptText
  (← IO.getStdout).flush
  let line ← input.getLine
  if line.isEmpty then return 0
  match react ampleBudget session line with
  | none => return 2
  | some .leaves => return 0
  | some (.answers text session) =>
    IO.print text
    serve input session

/-- Do what the arguments ask for. -/
def start (arguments : List String) : IO UInt32 := do
  match Request.ofArguments? arguments with
  | none =>
    IO.eprint usage
    return 2
  | some (.evaluate text) => deliver (evaluate ampleBudget text)
  | some (.runFile name) => deliver (runFile ampleBudget name (← contentOf name))
  | some .converse =>
    IO.print banner
    serve (← IO.getStdin) (.fresh none)

end Script.CommandLine

/-- The program with its arguments. -/
def main (arguments : List String) : IO UInt32 := Script.CommandLine.start arguments
