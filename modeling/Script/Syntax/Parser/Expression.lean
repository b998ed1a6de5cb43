/-
# Expressions

From the tightest to the loosest: signs, products, sums, comparisons, negations of
truth, conjunctions and disjunctions, which stand on one level, and assignments.
Operators between operands group to the left, assignments to the right. Two
identifiers in a row begin a definition; the token behind them tells whether of a
function or of a name. An expression that contains another takes at least one token
before it, so expressions nest less deep than there are tokens.
-/

import Script.Syntax.Parser.Primary

namespace Script

namespace Parser

/-! ## Levels of operators -/

/-- Operators of one level and their right operands behind a left operand. -/
def operations (operator? : Token.Kind → Option BinaryOperator) (operand : Parser Node) :
    Rounds → Node → Parser Node
  | .spent beyond, _ => beyond Node
  | .more rounds, left => do
    match operator? (← peekKind) with
    | none => return left
    | some operator =>
      let _ ← advance
      let right ← operand
      operations operator? operand rounds
        (.binary (left.site.through right.site) operator left right)

/-- Operands of one level with operators between them. -/
def leftAssociative (operator? : Token.Kind → Option BinaryOperator) (rounds : Rounds)
    (operand : Parser Node) : Parser Node := do
  let first ← operand
  operations operator? operand rounds first

/-- The operators at the front of a row of tokens, each with its span, and the
tokens behind them. -/
def takeOperators (operator? : Token.Kind → Option UnaryOperator) :
    List Token → List (UnaryOperator × Span) × List Token
  | [] => ([], [])
  | token :: rest =>
    match operator? token.kind with
    | none => ([], token :: rest)
    | some operator =>
      let (operators, others) := takeOperators operator? rest
      ((operator, token.span) :: operators, others)

/-- A tree under an operator that stands before it. -/
def applyOperator (operator : UnaryOperator × Span) (node : Node) : Node :=
  .unary (operator.2.through node.site) operator.1 node

/-- An operand with any number of operators before it. -/
def rightAssociative (operator? : Token.Kind → Option UnaryOperator) (operand : Parser Node) :
    Parser Node := do
  let operators ← modifyGet fun stream =>
    let (operators, rest) := takeOperators operator? stream.rest
    (operators, { stream with rest })
  let node ← operand
  return operators.foldr applyOperator node

/-- Operands with signs. -/
def signed (rounds : Rounds) (expression : Parser Node) : Parser Node :=
  rightAssociative UnaryOperator.ofSignKind? (operand rounds expression)

/-- Products. -/
def product (rounds : Rounds) (expression : Parser Node) : Parser Node :=
  leftAssociative BinaryOperator.ofFactorKind? rounds (signed rounds expression)

/-- Sums. -/
def sum (rounds : Rounds) (expression : Parser Node) : Parser Node :=
  leftAssociative BinaryOperator.ofTermKind? rounds (product rounds expression)

/-- Comparisons and their negations. -/
def comparison (rounds : Rounds) (expression : Parser Node) : Parser Node :=
  rightAssociative UnaryOperator.ofNotKind?
    (leftAssociative BinaryOperator.ofComparisonKind? rounds (sum rounds expression))

/-- Conjunctions and disjunctions. -/
def logical (rounds : Rounds) (expression : Parser Node) : Parser Node :=
  leftAssociative BinaryOperator.ofLogicalKind? rounds (comparison rounds expression)

/-- An expression of the levels above, or an assignment to one. -/
def assignment (rounds : Rounds) (expression : Parser Node) : Parser Node := do
  let target ← logical rounds expression
  if ← accept .equal then
    if target.isAssignable then
      let value ← expression
      return .assign (target.site.through value.site) target value
    else throw ⟨.invalidTarget, target.site⟩
  else return target

/-! ## Definitions -/

/-- A type, a name, an equals sign and a value. -/
def declaration (expression : Parser Node) : Parser Node := do
  let typeName ← advance
  let name ← advance
  let _ ← expect .equal .expectedEqual
  let value ← expression
  return .declare (typeName.span.through value.site) typeName.lexeme name.lexeme value

/-- A parameter's type and name. -/
def parameter : Parser (Parameter Span) := do
  let typeName ← expect .identifier .expectedParameterType
  let name ← expect .identifier .expectedParameterName
  return ⟨typeName.span.through name.span, typeName.lexeme, name.lexeme⟩

/-- The body of a function, and whether it is an expression that gives the result. -/
def functionBody (rounds : Rounds) (expression : Parser Node) : Parser (Bool × Node) := do
  match ← peekKind with
  | .leftBrace => return (false, ← block rounds expression)
  | .equal =>
    let _ ← advance
    skipSeparators
    return (true, ← expression)
  | _ => fail .expectedLeftBraceOrEqual

/-- A result type, a name, parameters and a body. -/
def functionDef (rounds : Rounds) (expression : Parser Node) : Parser Node := do
  let returnType ← advance
  let name ← advance
  let _ ← expect .leftParen .expectedLeftParen
  let parameters ← itemsBefore .rightParen parameter rounds
  let _ ← expect .rightParen .expectedCommaOrRightParen
  let (givesBody, body) ← functionBody rounds expression
  return .functionDef (returnType.span.through body.site) returnType.lexeme name.lexeme parameters
    givesBody body

/-! ## All of them -/

/-- A definition or an assignment, with nested expressions read as given. -/
def expressionWith (rounds : Rounds) (expression : Parser Node) : Parser Node := do
  let stream ← get
  if stream.peek.kind = .identifier ∧ (stream.peekAt 1).kind = .identifier then
    match (stream.peekAt 2).kind with
    | .leftParen => functionDef rounds expression
    | .equal => declaration expression
    | _ => failAt (stream.peekAt 2) .expectedEqualOrParen
  else assignment rounds expression

/-- An expression in which others nest as deep as there are rounds. What is nested deeper
is left to the parser behind the last round. -/
def expression : Rounds → Parser Node
  | .spent beyond => beyond Node
  | .more rounds => expressionWith rounds (expression rounds)

/-- A whole program. There are more rounds than tokens. -/
def program : Parser Node := do
  let rounds := Rounds.ofCount ((← get).rest.length + 1)
  statementRow .endOfInput rounds (expression rounds)

end Parser

/-- The program that a row of tokens is. -/
def Tree.ofTokens (tokens : List Token) : Except SyntaxError (Tree Span) :=
  (Parser.program.run (TokenStream.ofTokens tokens)).map (·.1)

end Script
