/-
# Reports of failures

A failure arises in reading tokens, in reading trees or in evaluating. Each has a
category, a message and a span. The report shows the failing place underlined; for
a failure in evaluating it also lists the calls that led there, the outermost first.
-/

import Script.Eval.Fault
import Script.Syntax.Problem
import Script.Token.Lexer

namespace Script

/-- One line of a traceback. -/
structure TraceLine where
  file : String
  line : Nat
  context : String

namespace RuntimeError

/-- What encloses a place, the innermost first: the active calls, each with the
place inside it, and the program. -/
def traceFrom (place : Span) : List (Call Span) → List TraceLine
  | [] => [⟨place.source.file, place.line, "<program>"⟩]
  | call :: calls => ⟨place.source.file, place.line, call.name⟩ :: traceFrom call.site calls

/-- The traceback of an error, the outermost line first. -/
def traceback (error : RuntimeError Span) : List TraceLine :=
  (traceFrom error.site error.calls).reverse

end RuntimeError

/-- Why a source has no value. -/
inductive Failure where
  | lexical (error : LexError)
  | grammatical (error : SyntaxError)
  | runtime (error : RuntimeError Span)

namespace Failure

/-- The category under which a failure is reported. -/
def category : Failure → Category
  | lexical error => error.problem.category
  | grammatical _ => .invalidSyntax
  | runtime error => error.fault.category

/-- The failure as a reader sees it. -/
def message : Failure → String
  | lexical error => error.problem.message
  | grammatical error => error.problem.message
  | runtime error => error.fault.message

/-- The failing place. -/
def span : Failure → Span
  | lexical error => error.span
  | grammatical error => error.span
  | runtime error => error.site

/-- Category and message on one line. -/
def summary (failure : Failure) : String := failure.category.title ++ ": " ++ failure.message

/-- A line of a traceback in a report. -/
def traceText (line : TraceLine) : String :=
  "  File " ++ line.file ++ ", line " ++ toString line.line ++ ", in " ++ line.context ++ "\n"

/-- The calls that led to a failure, if it arose in evaluating. -/
def preamble : Failure → String
  | runtime error =>
    "Traceback (most recent call last):\n" ++ String.join (error.traceback.map traceText)
  | _ => ""

/-- The whole report. -/
def render (failure : Failure) : String :=
  failure.preamble ++ failure.summary ++ "\nFile " ++ failure.span.source.file ++ ", line " ++
    toString failure.span.line ++ "\n\n" ++ failure.span.underline

end Failure

end Script
