/-
# Sessions

A session runs sources one after another in the same global frame. A source that
fails leaves behind what it did before it failed. Running is given a budget, as
evaluation is; with too small a budget a run has no answer.
-/

import Script.Eval.Run
import Script.Failure
import Script.Syntax.Parser.Expression

namespace Script

/-- The program that a source is. -/
def Tree.ofSource (source : Source) : Except Failure (Tree Span) :=
  match Token.scan source with
  | .error error => .error (.lexical error)
  | .ok tokens =>
    match Tree.ofTokens tokens with
    | .error error => .error (.grammatical error)
    | .ok tree => .ok tree

/-- The error that an early exit is where nothing ended it, under the calls that are
active. -/
def Exit.stray {σ : Type} (calls : List (Call σ)) : Exit σ → RuntimeError σ
  | .returned _ site => ⟨.strayReturn, site, calls⟩
  | .breaking site => ⟨.strayBreak, site, calls⟩
  | .continuing site => ⟨.strayContinue, site, calls⟩

namespace Eval

variable {σ : Type}

/-- How a program ends in the global frame, with no call active. -/
def main (budget : Nat) (tree : Tree σ) (state : State σ) : Outcome σ Value :=
  evaluate budget tree State.globals { state with calls := [] }

/-- Run a program. What leaves it early was stray. -/
def program (budget : Nat) (tree : Tree σ) (state : State σ) :
    Option (Except (RuntimeError σ) Value × State σ) :=
  match main budget tree state with
  | .done value state => some (.ok value, state)
  | .interrupted (.error error) state => some (.error error, state)
  | .interrupted (.exit exit) state => some (.error (exit.stray state.calls), state)
  | .exhausted => none

end Eval

/-- A budget that no run uses up in any time there is. -/
def ampleBudget : Nat := Nat.pow 2 62

/-- A session between two sources. -/
structure Session where
  state : State Span

namespace Session

/-- A session in which nothing was run, with a limit for what it may print. -/
def fresh (limit : Option Nat) : Session := ⟨.initial limit⟩

/-- Run a program. -/
def runTree (session : Session) (budget : Nat) (tree : Tree Span) :
    Option (Except Failure Value × Session) :=
  match Eval.program budget tree session.state with
  | some (.ok value, state) => some (.ok value, ⟨state⟩)
  | some (.error error, state) => some (.error (.runtime error), ⟨state⟩)
  | none => none

/-- Run a source. -/
def run (session : Session) (budget : Nat) (source : Source) :
    Option (Except Failure Value × Session) :=
  match Tree.ofSource source with
  | .error failure => some (.error failure, session)
  | .ok tree => session.runTree budget tree

/-- The heap of a session. -/
def heap (session : Session) : Heap := session.state.heap

/-- The answer to a source as it is shown: its value or the report of its failure. -/
def answerText (session : Session) : Except Failure Value → String
  | .ok value => value.display session.heap
  | .error failure => failure.render

/-- Take the text that was printed and not taken yet. -/
def takeOutput (session : Session) : String × Session :=
  let (text, sink) := session.state.sink.take
  (text, ⟨{ session.state with sink }⟩)

end Session

end Script
