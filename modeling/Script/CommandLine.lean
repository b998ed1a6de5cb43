/-
# The command line

Three ways to run sources: a text given as an argument, whose value is shown; a
file, whose value is not shown; and lines typed at a prompt, each of which is
answered before the next is read. What each prints is stated here without reading
or printing anything.
-/

import Script.Session
import Script.Text.Blank

namespace Script.CommandLine

/-- What a run prints, and the status it ends with. -/
structure Report where
  output : String
  errors : String
  status : UInt32

/-- What the arguments ask for. -/
inductive Request where
  | evaluate (text : String)
  | runFile (name : String)
  | converse

/-- What a list of arguments asks for, if it is well formed. -/
def Request.ofArguments? : List String → Option Request
  | [] => some .converse
  | ["-e", text] | ["--eval", text] => some (.evaluate text)
  | [argument] =>
    match argument.dropPrefix? "--eval=" with
    | some text => some (.evaluate text.toString)
    | none => if argument.startsWith "-" then none else some (.runFile argument)
  | _ => none

/-- What is told to who gives other arguments. -/
def usage : String := "usage: [FILE | --eval SOURCE]\n"

/-- What is told if a file cannot be read. -/
def missingFile : String := "No such file or directory (os error 2)\n"

/-- Run a source in a session of its own. Its value is printed behind the program's
own output if asked for. -/
def runSource (budget : Nat) (source : Source) (showsValue : Bool) : Option Report :=
  match (Session.fresh none).run budget source with
  | none => none
  | some (answer, session) =>
    let (printed, session) := session.takeOutput
    match answer with
    | .ok _ =>
      let shown := if showsValue then session.answerText answer ++ "\n" else ""
      some ⟨printed ++ shown, "", 0⟩
    | .error failure => some ⟨printed, failure.render ++ "\n", 1⟩

/-- Run a text given as an argument. -/
def evaluate (budget : Nat) (text : String) : Option Report :=
  runSource budget ⟨text, "<eval>"⟩ true

/-- Run a file with a given content, if there is one of that name. -/
def runFile (budget : Nat) (name : String) : Option String → Option Report
  | some content => runSource budget ⟨content, name⟩ false
  | none => some ⟨"", missingFile, 1⟩

/-! ## The prompt -/

/-- What is printed before the first line is read. -/
def banner : String := "Type :help for help, :quit to exit.\n"

/-- What is printed before each line is read. -/
def promptText : String := "skink> "

/-- What is printed when help is asked for. -/
def help : String :=
  "Commands:\n" ++
  "  :help        Show this help\n" ++
  "  :quit, :q    Exit the REPL\n" ++
  "\n" ++
  "Bindings persist between lines, e.g.\n" ++
  "  int a = 2\n" ++
  "  int twice(int x) = x * 2\n" ++
  "  twice(a)\n"

/-- What happens when a line is read. -/
inductive Reaction where
  | leaves
  | answers (text : String) (session : Session)

/-- Answer a line that is neither blank nor a command. -/
def answerLine (budget : Nat) (session : Session) (line : String) : Option Reaction :=
  match session.run budget ⟨line, "<stdin>"⟩ with
  | none => none
  | some (answer, session) =>
    let (printed, session) := session.takeOutput
    some (.answers (printed ++ session.answerText answer ++ "\n") session)

/-- React to a line. Blanks around it do not count, and a blank line is passed over. -/
def react (budget : Nat) (session : Session) (line : String) : Option Reaction :=
  let line := Text.trim line
  if line.isEmpty then some (.answers "" session)
  else if line = ":quit" ∨ line = ":q" then some .leaves
  else if line = ":help" then some (.answers help session)
  else answerLine budget session line

/-- What is printed while lines are read, from the first prompt on. -/
def conversation (budget : Nat) (session : Session) : List String → Option String
  | [] => some promptText
  | line :: lines =>
    match react budget session line with
    | none => none
    | some .leaves => some promptText
    | some (.answers text session) =>
      (conversation budget session lines).map fun rest => promptText ++ text ++ rest

/-- Read lines at the prompt until they end or one of them leaves. -/
def converse (budget : Nat) (lines : List String) : Option Report :=
  (conversation budget (Session.fresh none) lines).map fun text => ⟨banner ++ text, "", 0⟩

end Script.CommandLine
