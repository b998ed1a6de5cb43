/-
# Tokens as text

The line by which a token is listed: the name of its kind, its lexeme and its
value, if it has one.
-/

import Script.Number.Display
import Script.Text.Quoted
import Script.Token.Basic

namespace Script

/-- The name of a keyword's kind. -/
def Keyword.name : Keyword → String
  | andWord => "And"
  | breakWord => "Break"
  | continueWord => "Continue"
  | elifWord => "Elif"
  | elseWord => "Else"
  | ifWord => "If"
  | namespaceWord => "Namespace"
  | notWord => "Not"
  | orWord => "Or"
  | returnWord => "Return"
  | whileWord => "While"

namespace Token

/-- The name of a kind. -/
def Kind.name : Kind → String
  | separator => "Newline"
  | leftParen => "LeftParen"
  | rightParen => "RightParen"
  | leftBrace => "LeftBrace"
  | rightBrace => "RightBrace"
  | leftBracket => "LeftBracket"
  | rightBracket => "RightBracket"
  | comma => "Comma"
  | dot => "Dot"
  | minus => "Minus"
  | plus => "Plus"
  | slash => "Slash"
  | star => "Star"
  | percent => "Percent"
  | bangEqual => "BangEqual"
  | equal => "Equal"
  | equalEqual => "EqualEqual"
  | greater => "Greater"
  | greaterEqual => "GreaterEqual"
  | less => "Less"
  | lessEqual => "LessEqual"
  | identifier => "Identifier"
  | string => "StringLiteral"
  | int => "Int"
  | long => "Long"
  | double => "Double"
  | keyword word => word.name
  | endOfInput => "EOF"

/-- The value of a literal with its kind. -/
def Literal.display : Literal → String
  | number (.int value) => "Number(Int(" ++ toString value.toInt ++ "))"
  | number (.long value) => "Number(Long(" ++ toString value.toInt ++ "))"
  | number (.double value) => "Number(Double(" ++ Number.doubleTokenText value ++ "))"
  | string value => "Str(" ++ Text.quote value ++ ")"

/-- Kind, lexeme and value. -/
def display (token : Token) : String :=
  let value :=
    match token.literal with
    | none => "None"
    | some literal => "Some(" ++ literal.display ++ ")"
  token.kind.name ++ " " ++ token.lexeme ++ " " ++ value

end Token

end Script
