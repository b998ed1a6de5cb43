/-
# Readings and their repetition

A reading relates a row of tokens, what is left of it, and what was read from the
tokens in between. The grammar is made of readings of single constructs and of the
ways in which these are repeated: with separators around or between them, with
commas, with operators, with brackets behind them. Nothing here chooses between two
ways of reading a row, and nothing looks at the tokens that are left.
-/

import Script.Proofs.Syntax.Shape
import Script.Token.Basic

namespace Script.Grammar

/-- What can be read from the front of a row of tokens, with the tokens left behind
it. -/
abbrev Reading (α : Type) := List Token → List Token → α → Prop

variable {α : Type}

/-- The kind of the next token, or of the end of a row. -/
def nextKind : List Token → Token.Kind
  | [] => .endOfInput
  | token :: _ => token.kind

@[simp]
theorem nextKind_nil : nextKind [] = .endOfInput := rfl

@[simp]
theorem nextKind_cons (token : Token) (tokens : List Token) :
    nextKind (token :: tokens) = token.kind := rfl

/-- Any number of separators. -/
inductive Separators : List Token → List Token → Prop
  | none {tokens : List Token} : Separators tokens tokens
  | more {token : Token} {tokens rest : List Token} :
      token.kind = .separator → Separators tokens rest → Separators (token :: tokens) rest

/-- Something with any number of separators before and behind it. -/
inductive Spaced (read : Reading α) : Reading α
  | intro {tokens first second rest : List Token} {x : α} :
      Separators tokens first → read first second x → Separators second rest →
      Spaced read tokens rest x

/-- One or more things with commas between them. -/
inductive CommaSeparated (read : Reading α) : Reading (List α)
  | one {tokens rest : List Token} {x : α} :
      read tokens rest x → CommaSeparated read tokens rest [x]
  | more {tokens middle rest : List Token} {comma : Token} {x : α} {xs : List α} :
      read tokens (comma :: middle) x → comma.kind = .comma →
      CommaSeparated read middle rest xs → CommaSeparated read tokens rest (x :: xs)

/-- Any number of things with commas between them, and separators anywhere around
them. -/
inductive Items (read : Reading α) : Reading (List α)
  | none {tokens rest : List Token} : Separators tokens rest → Items read tokens rest []
  | some {tokens rest : List Token} {xs : List α} :
      CommaSeparated (Spaced read) tokens rest xs → Items read tokens rest xs

/-- One or more things with one or more separators between them, and any number of
separators behind the last. -/
inductive SeparatedRow (read : Reading α) : Reading (List α)
  | one {tokens middle rest : List Token} {x : α} :
      read tokens middle x → Separators middle rest → SeparatedRow read tokens rest [x]
  | more {tokens middle next rest : List Token} {separator : Token} {x : α} {xs : List α} :
      read tokens (separator :: middle) x → separator.kind = .separator →
      Separators middle next → SeparatedRow read next rest xs →
      SeparatedRow read tokens rest (x :: xs)

/-- Any number of things with one or more separators between them, and any number of
separators before the first and behind the last. -/
inductive Row (read : Reading α) : Reading (List α)
  | none {tokens rest : List Token} : Separators tokens rest → Row read tokens rest []
  | some {tokens first rest : List Token} {xs : List α} :
      Separators tokens first → SeparatedRow read first rest xs → Row read tokens rest xs

/-- Any number of operators of one level, each with an operand behind it. What stands
before an operator is its left operand. -/
inductive Operations (operator? : Token.Kind → Option BinaryOperator)
    (read : Reading (Tree Unit)) : List Token → List Token → Tree Unit → Tree Unit → Prop
  | none {tokens : List Token} {left : Tree Unit} :
      Operations operator? read tokens tokens left left
  | more {token : Token} {tokens middle rest : List Token} {operator : BinaryOperator}
      {left right result : Tree Unit} :
      operator? token.kind = some operator → read tokens middle right →
      Operations operator? read middle rest (.binary () operator left right) result →
      Operations operator? read (token :: tokens) rest left result

/-- An operand, and any number of operators of one level with their right operands. -/
inductive LeftAssociative (operator? : Token.Kind → Option BinaryOperator)
    (read : Reading (Tree Unit)) : Reading (Tree Unit)
  | intro {tokens middle rest : List Token} {first result : Tree Unit} :
      read tokens middle first → Operations operator? read middle rest first result →
      LeftAssociative operator? read tokens rest result

/-- An operand with any number of operators before it. -/
inductive Prefixed (operator? : Token.Kind → Option UnaryOperator)
    (read : Reading (Tree Unit)) : Reading (Tree Unit)
  | none {tokens rest : List Token} {operand : Tree Unit} :
      read tokens rest operand → Prefixed operator? read tokens rest operand
  | more {token : Token} {tokens rest : List Token} {operator : UnaryOperator}
      {operand : Tree Unit} :
      operator? token.kind = some operator → Prefixed operator? read tokens rest operand →
      Prefixed operator? read (token :: tokens) rest (.unary () operator operand)

/-- Any number of member selections, index brackets and argument lists behind an
object. -/
inductive Trailers (read : Reading (Tree Unit)) :
    List Token → List Token → Tree Unit → Tree Unit → Prop
  | none {tokens : List Token} {object : Tree Unit} : Trailers read tokens tokens object object
  | member {dot name : Token} {tokens rest : List Token} {object result : Tree Unit} :
      dot.kind = .dot → name.kind = .identifier →
      Trailers read tokens rest (.member () object name.lexeme) result →
      Trailers read (dot :: name :: tokens) rest object result
  | index {opening closing : Token} {tokens middle rest : List Token}
      {object key result : Tree Unit} :
      opening.kind = .leftBracket → Spaced read tokens (closing :: middle) key →
      closing.kind = .rightBracket → Trailers read middle rest (.index () object key) result →
      Trailers read (opening :: tokens) rest object result
  | call {opening closing : Token} {tokens middle rest : List Token}
      {object result : Tree Unit} {arguments : List (Tree Unit)} :
      opening.kind = .leftParen → Items read tokens (closing :: middle) arguments →
      closing.kind = .rightParen → Trailers read middle rest (.call () object arguments) result →
      Trailers read (opening :: tokens) rest object result

end Script.Grammar
