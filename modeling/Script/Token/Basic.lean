/-
# Tokens

A token is a piece of a source with a kind. Numbers and quoted strings also carry
the value they denote. Lines and semicolons separate statements, so a line feed is
a token of its own.
-/

import Script.Number.Basic
import Script.Source.Span

namespace Script

/-- The words that are no identifiers. -/
inductive Keyword where
  | andWord | breakWord | continueWord | elifWord | elseWord | ifWord | namespaceWord
  | notWord | orWord | returnWord | whileWord
  deriving DecidableEq

namespace Keyword

/-- Every keyword. -/
def all : List Keyword :=
  [andWord, breakWord, continueWord, elifWord, elseWord, ifWord, namespaceWord, notWord, orWord,
    returnWord, whileWord]

/-- How a keyword is written. -/
def spelling : Keyword → String
  | andWord => "and"
  | breakWord => "break"
  | continueWord => "continue"
  | elifWord => "elif"
  | elseWord => "else"
  | ifWord => "if"
  | namespaceWord => "namespace"
  | notWord => "not"
  | orWord => "or"
  | returnWord => "return"
  | whileWord => "while"

/-- The keyword that is written in a given way, if one is. -/
def ofSpelling? (word : String) : Option Keyword :=
  all.find? (·.spelling = word)

theorem ofSpelling?_spelling (keyword : Keyword) :
    ofSpelling? keyword.spelling = some keyword := by
  cases keyword <;> rfl

end Keyword

namespace Token

/-- What a token is, apart from its text and value. -/
inductive Kind where
  /-- A line feed or a semicolon. -/
  | separator
  | leftParen | rightParen | leftBrace | rightBrace | leftBracket | rightBracket
  | comma | dot | minus | plus | slash | star | percent
  | bangEqual | equal | equalEqual | greater | greaterEqual | less | lessEqual
  | identifier | string | int | long | double
  | keyword (word : Keyword)
  | endOfInput
  deriving DecidableEq, Inhabited

/-- The value that a literal token denotes. -/
inductive Literal where
  | number (value : Number)
  | string (value : String)
  deriving BEq

end Token

/-- A piece of a source with its kind and, for a literal, its value. -/
structure Token where
  kind : Token.Kind
  lexeme : String
  literal : Option Token.Literal
  span : Span

namespace Token

/-- The line on which a token begins. -/
def line (token : Token) : Nat := token.span.line

/-- The token that stands behind all others. It covers no text. -/
def atEnd (span : Span) : Token := ⟨.endOfInput, "", none, span⟩

end Token

end Script
