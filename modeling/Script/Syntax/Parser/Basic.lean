/-
# Reading from a row of tokens

A stream is what is left of a row of tokens, together with the token that stands
for its end. The end is never taken: looking past the last token, or taking a
token where none is left, gives the end token again. A parser takes tokens from
the front of a stream and either gives a result or fails at one place.

What repeats a reading goes in rounds. It is given how many there are and a parser that
stands behind the last of them, so that it cannot end because the rounds do. Each round
takes at least one token, hence with more rounds than tokens that are left the parser
behind the last round is never reached.
-/

import Script.Syntax.Problem
import Script.Token.Basic

namespace Script

/-- The tokens that are left, and the token that ends the row. -/
structure TokenStream where
  rest : List Token
  ending : Token

namespace TokenStream

/-- Whether a token ends a row. -/
def isEnding (token : Token) : Bool := token.kind = .endOfInput

/-- The end token of a row that has none. It stands behind the last token, or in an
empty source if there is no token. -/
def missingEnding (tokens : List Token) : Token :=
  match tokens.getLast? with
  | some token => .atEnd token.span.after
  | none => .atEnd ⟨Source.mk "" "<input>", .start, .start⟩

/-- The tokens up to the first that ends a row. -/
def ofTokens (tokens : List Token) : TokenStream where
  rest := tokens.takeWhile fun token => !isEnding token
  ending := (tokens.find? isEnding).getD (missingEnding tokens)

/-- The token at a distance from the front. -/
def peekAt (stream : TokenStream) (distance : Nat) : Token :=
  (stream.rest[distance]?).getD stream.ending

/-- The token at the front. -/
def peek (stream : TokenStream) : Token := stream.rest.headD stream.ending

/-- The stream behind its front token. -/
def tail (stream : TokenStream) : TokenStream := { stream with rest := stream.rest.tail }

/-- The stream behind the separators at its front. -/
def pastSeparators (stream : TokenStream) : TokenStream :=
  { stream with rest := stream.rest.dropWhile (·.kind = .separator) }

end TokenStream

/-- A reading of tokens that gives a result or fails at one place. -/
abbrev Parser := StateT TokenStream (Except SyntaxError)

namespace Parser

variable {α : Type}

/-- Fail at a token. -/
def failAt (token : Token) (problem : SyntaxProblem) : Parser α :=
  throw ⟨problem, token.span⟩

/-- The token at the front, which stays. -/
def peek : Parser Token := return (← get).peek

/-- The kind of the token at the front. -/
def peekKind : Parser Token.Kind := return (← get).peek.kind

/-- Take the token at the front. -/
def advance : Parser Token :=
  modifyGet fun stream => (stream.peek, stream.tail)

/-- Fail at the token at the front. -/
def fail (problem : SyntaxProblem) : Parser α := do failAt (← peek) problem

/-- Take a token of a given kind. -/
def expect (kind : Token.Kind) (problem : SyntaxProblem) : Parser Token := do
  if (← peekKind) = kind then advance else fail problem

/-- Take a token of a given kind if it is at the front, and say whether it was. -/
def accept (kind : Token.Kind) : Parser Bool := do
  if (← peekKind) = kind then
    let _ ← advance
    return true
  else return false

/-- Take all separators at the front. -/
def skipSeparators : Parser Unit := modify TokenStream.pastSeparators

/-! ## Rounds -/

/-- The rounds that a repetition may still go, and what stands behind the last of them. -/
inductive Rounds where
  | spent (beyond : (α : Type) → Parser α)
  | more (rounds : Rounds)

/-- How many rounds there are. -/
def Rounds.count : Rounds → Nat
  | .spent _ => 0
  | .more rounds => rounds.count + 1

/-- A number of rounds with failure behind them. -/
def Rounds.ofCount : Nat → Rounds
  | 0 => .spent fun _ => fail .expectedExpression
  | count + 1 => .more (ofCount count)

instance : Coe Nat Rounds := ⟨Rounds.ofCount⟩

theorem Rounds.ofCount_succ (count : Nat) : ofCount (count + 1) = .more (ofCount count) := rfl

@[simp] theorem Rounds.count_ofCount (count : Nat) : (ofCount count).count = count := by
  induction count with
  | zero => rfl
  | succ count ih => rw [ofCount_succ, Rounds.count, ih]

/-- One or more items with commas between them. -/
def commaSeparated (item : Parser α) : Rounds → Parser (List α)
  | .spent beyond => beyond (List α)
  | .more rounds => do
    let first ← item
    if ← accept .comma then return first :: (← commaSeparated item rounds)
    else return [first]

/-- Items with commas between them up to a closing token, which is not taken. -/
def itemsBefore (close : Token.Kind) (item : Parser α) (rounds : Rounds) : Parser (List α) := do
  if (← peekKind) = close then return []
  else commaSeparated item rounds

end Parser

end Script
