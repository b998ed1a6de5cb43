/-
# Operands

What operators apply to: literals, names, brackets, lists, conditionals, loops and
namespaces, followed by any number of member selections, index brackets and
argument lists. Between brackets separators do not count.
-/

import Script.Syntax.Parser.Statement

namespace Script.Parser

/-- An expression with separators around it. -/
def spaced (expression : Parser Node) : Parser Node := do
  skipSeparators
  let node ← expression
  skipSeparators
  return node

/-- Expressions up to and with a closing token. -/
def items (close : Token.Kind) (problem : SyntaxProblem) (rounds : Rounds)
    (expression : Parser Node) : Parser (List Node × Token) := do
  skipSeparators
  let nodes ← itemsBefore close (spaced expression) rounds
  let closing ← expect close problem
  return (nodes, closing)

/-- A number that its token denotes. -/
def numberLiteral : Parser Node := do
  let token ← advance
  match token.literal with
  | some (.number value) => return .number token.span value
  | _ => failAt token .expectedNumberLiteral

/-- A string that its token denotes. -/
def stringLiteral : Parser Node := do
  let token ← advance
  match token.literal with
  | some (.string value) => return .string token.span value
  | _ => failAt token .expectedStringLiteral

/-- An expression in parentheses. Its span takes the parentheses in. -/
def parenthesized (expression : Parser Node) : Parser Node := do
  let opening ← advance
  let node ← spaced expression
  let closing ← expect .rightParen .expectedRightParen
  return node.withSite (opening.span.through closing.span)

/-- A list in braces. -/
def listLiteral (rounds : Rounds) (expression : Parser Node) : Parser Node := do
  let opening ← advance
  let (nodes, closing) ← items .rightBrace .expectedCommaOrRightBrace rounds expression
  return .list (opening.span.through closing.span) nodes

/-- The kind of the first token that is no separator. -/
def kindPastSeparators : Parser Token.Kind := return (← get).pastSeparators.peek.kind

/-- The branches behind the first of a conditional, one in each of the rounds that are
left. Separators before a branch's keyword are part of the conditional. -/
def branches (rounds : Rounds) (expression : Parser Node) : Rounds → Parser (Branches Span)
  | .spent beyond => beyond (Branches Span)
  | .more left => do
    match ← kindPastSeparators with
    | .keyword .elifWord =>
      skipSeparators
      let _ ← advance
      let condition ← expression
      let body ← block rounds expression
      return .orIf condition body (← branches rounds expression left)
    | .keyword .elseWord =>
      skipSeparators
      let _ ← advance
      if (← peekKind) = .leftBrace then return .otherwise (← block rounds expression)
      else return .otherwise (← statement expression)
    | _ => return .none

/-- A conditional with its keyword. -/
def conditional (rounds : Rounds) (expression : Parser Node) : Parser Node := do
  let opening ← advance
  let condition ← expression
  let body ← block rounds expression
  let rest ← branches rounds expression rounds
  return .conditional (opening.span.through (rest.lastSite body.site)) condition body rest

/-- A loop with its keyword. -/
def whileLoop (rounds : Rounds) (expression : Parser Node) : Parser Node := do
  let opening ← advance
  let condition ← expression
  let body ← block rounds expression
  return .whileLoop (opening.span.through body.site) condition body

/-- A namespace with its keyword. -/
def namespaceDef (rounds : Rounds) (expression : Parser Node) : Parser Node := do
  let opening ← advance
  let name ← expect .identifier .expectedNamespaceName
  let body ← block rounds expression
  return .namespaceDef (opening.span.through body.site) name.lexeme body

/-- An operand without what may follow it. -/
def primary (rounds : Rounds) (expression : Parser Node) : Parser Node := do
  match ← peekKind with
  | .int | .long | .double => numberLiteral
  | .string => stringLiteral
  | .identifier =>
    let token ← advance
    return .identifier token.span token.lexeme
  | .leftParen => parenthesized expression
  | .leftBrace => listLiteral rounds expression
  | .keyword .ifWord => conditional rounds expression
  | .keyword .whileWord => whileLoop rounds expression
  | .keyword .namespaceWord => namespaceDef rounds expression
  | _ => fail .expectedExpression

/-- Selections, brackets and argument lists behind an object, one in each of the rounds
that are left. -/
def trailers (rounds : Rounds) (expression : Parser Node) : Rounds → Node → Parser Node
  | .spent beyond, _ => beyond Node
  | .more left, object => do
    match ← peekKind with
    | .dot =>
      let _ ← advance
      let name ← expect .identifier .expectedMemberName
      trailers rounds expression left (.member (object.site.through name.span) object name.lexeme)
    | .leftBracket =>
      let _ ← advance
      let key ← spaced expression
      let closing ← expect .rightBracket .expectedRightBracket
      trailers rounds expression left (.index (object.site.through closing.span) object key)
    | .leftParen =>
      let _ ← advance
      let (arguments, closing) ← items .rightParen .expectedCommaOrRightParen rounds expression
      trailers rounds expression left (.call (object.site.through closing.span) object arguments)
    | _ => return object

/-- An operand with what follows it. -/
def operand (rounds : Rounds) (expression : Parser Node) : Parser Node := do
  let object ← primary rounds expression
  trailers rounds expression rounds object

end Script.Parser
