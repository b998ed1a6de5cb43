/-
# Syntax errors

A syntax error names what was expected and the token that stands there instead.
The one error of another kind is an equals sign behind something that cannot be
assigned to; it points at that thing.
-/

import Script.Source.Span

namespace Script

/-- Why a row of tokens is no program. -/
inductive SyntaxProblem where
  | expectedSeparator
  | expectedExpression
  | expectedEqualOrParen
  | expectedEqual
  | expectedLeftParen
  | expectedRightParen
  | expectedCommaOrRightParen
  | expectedCommaOrRightBrace
  | expectedLeftBrace
  | expectedRightBrace
  | expectedLeftBraceOrEqual
  | expectedRightBracket
  | expectedParameterType
  | expectedParameterName
  | expectedMemberName
  | expectedNamespaceName
  | expectedNumberLiteral
  | expectedStringLiteral
  | invalidTarget
  deriving DecidableEq

/-- The problem as a reader sees it. -/
def SyntaxProblem.message : SyntaxProblem → String
  | expectedSeparator => "expected newline or ';'"
  | expectedExpression => "expected expression"
  | expectedEqualOrParen => "expected '=' or '('"
  | expectedEqual => "expected '='"
  | expectedLeftParen => "expected '('"
  | expectedRightParen => "expected ')'"
  | expectedCommaOrRightParen => "expected ',' or ')'"
  | expectedCommaOrRightBrace => "expected ',' or '\x7d'"
  | expectedLeftBrace => "expected '\x7b'"
  | expectedRightBrace => "expected '\x7d'"
  | expectedLeftBraceOrEqual => "expected '\x7b' or '='"
  | expectedRightBracket => "expected ']'"
  | expectedParameterType => "expected parameter type"
  | expectedParameterName => "expected parameter name"
  | expectedMemberName => "expected identifier after '.'"
  | expectedNamespaceName => "expected namespace name"
  | expectedNumberLiteral => "expected a number literal"
  | expectedStringLiteral => "expected a string literal"
  | invalidTarget => "invalid assignment target"

/-- A problem and the place it concerns. -/
structure SyntaxError where
  problem : SyntaxProblem
  span : Span

end Script
