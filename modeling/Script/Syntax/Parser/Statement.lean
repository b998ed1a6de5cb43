/-
# Statements and blocks

Statements are separated by line feeds and semicolons, of which there may be any
number. A block is a row of statements in braces. The reading of expressions is a
parameter here, since expressions contain blocks.
-/

import Script.Syntax.Parser.Basic
import Script.Syntax.Tree

namespace Script.Parser

/-- A tree whose sites are the spans it was read from. -/
abbrev Node := Tree Span

/-- Whether a statement ends before a kind of token. -/
def endsStatement : Token.Kind → Bool
  | .separator | .rightBrace | .endOfInput => true
  | _ => false

/-- An early exit or an expression. -/
def statement (expression : Parser Node) : Parser Node := do
  let first ← peek
  match first.kind with
  | .keyword .returnWord =>
    let _ ← advance
    if endsStatement (← peekKind) then return .returnNothing first.span
    let value ← expression
    return .returnValue (first.span.through value.site) value
  | .keyword .breakWord =>
    let _ ← advance
    return .breakLoop first.span
  | .keyword .continueWord =>
    let _ ← advance
    return .continueLoop first.span
  | _ => expression

/-- Whether a row of statements that a token closes ends before a kind of token. -/
def endsRow (close kind : Token.Kind) : Bool :=
  kind = close || kind = .endOfInput

/-- Statements and separators before a closing token or the end. -/
def statementsBefore (close : Token.Kind) (item : Parser Node) : Rounds → Parser (List Node)
  | .spent beyond => beyond (List Node)
  | .more rounds => do
    skipSeparators
    if endsRow close (← peekKind) then return []
    let first ← item
    let next ← peekKind
    if endsRow close next then return [first]
    if next ≠ .separator then fail .expectedSeparator
    return first :: (← statementsBefore close item rounds)

/-- The span of a row of statements that begins at a token. -/
def rowSpan (first : Token) (statements : List Node) : Span :=
  match statements.getLast? with
  | some last => first.span.through last.site
  | none => first.span

/-- A row of statements before a closing token, as a block. -/
def statementRow (close : Token.Kind) (rounds : Rounds) (expression : Parser Node) :
    Parser Node := do
  let first ← peek
  let statements ← statementsBefore close (statement expression) rounds
  return .block (rowSpan first statements) statements

/-- A row of statements in braces. -/
def block (rounds : Rounds) (expression : Parser Node) : Parser Node := do
  let opening ← expect .leftBrace .expectedLeftBrace
  let body ← statementRow .rightBrace rounds expression
  let closing ← expect .rightBrace .expectedRightBrace
  return body.withSite (opening.span.through closing.span)

end Script.Parser
