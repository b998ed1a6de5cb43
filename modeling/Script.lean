import Script.Source.Span
import Script.TypeTag
import Script.Number.Display
import Script.Text.Quoted
import Script.Text.Blank
import Script.Token.Lexer
import Script.Token.Display
import Script.Syntax.Printer
import Script.Syntax.Outline
import Script.Syntax.Parser.Expression
import Script.Value.Operation
import Script.Heap.Display
import Script.Session
import Script.Main
import Script.Proofs.Grammar.Program
import Script.Proofs.Source.Underline
import Script.Proofs.Span.Source
import Script.Proofs.Eval.Isolation
import Script.Proofs.Session.Definitions
import Script.Proofs.Session.Integrity
import Script.Proofs.Session.Layout
import Script.Proofs.Session.Placement
import Script.Proofs.Session.Printed
import Script.Proofs.Session.Returns
import Script.Proofs.Session.Scopes
import Script.Proofs.Session.Termination
import Script.Proofs.Session.Signatures
import Script.Proofs.Token.Failure
import Script.Proofs.Token.Member
import Script.Proofs.Token.StringLiteral
import Script.Proofs.Parser.Offence
import Script.Proofs.Parser.Routine
import Script.Proofs.Syntax.Printer
import Script.Proofs.Token.Integer
import Script.Proofs.Heap.Chain
import Script.Proofs.Value.Elision
import Script.Proofs.Value.Sequence
import Script.Proofs.Session.Sink
import Script.Proofs.Session.Spans
