/-
# Reading a source as tokens

The tokens of a source are its pieces in order, without blanks and comments, and
with the position at which each stands. The first piece that cannot be read ends
the reading. The token that ends the list stands for the end of the source.
-/

import Script.Token.Piece

namespace Script

/-- A place of a source at which no token can begin or a literal has no end. -/
structure LexError where
  problem : Token.Problem
  span : Span

namespace Token

/-- The tokens of the rest of a source, from a position on. -/
def scanFrom (source : Source) (position : Position) : List Char → Except LexError (List Token)
  | [] => .ok [atEnd ⟨source, position, position⟩]
  | first :: after =>
    let piece := Piece.read first after
    let taken := first :: after.take piece.length
    let stop := position.advanceOver taken
    let span := ⟨source, position, stop⟩
    match piece.content with
    | .problem problem => .error ⟨problem, span⟩
    | .gap => scanFrom source stop (after.drop piece.length)
    | .token kind literal =>
      match scanFrom source stop (after.drop piece.length) with
      | .error error => .error error
      | .ok tokens => .ok (⟨kind, String.ofList taken, literal, span⟩ :: tokens)
termination_by characters => characters.length
decreasing_by
  all_goals simp only [List.length_drop, List.length_cons]; omega

/-- The tokens of a source. -/
def scan (source : Source) : Except LexError (List Token) :=
  scanFrom source .start source.text.toList

end Token

end Script
