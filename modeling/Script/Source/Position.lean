/-
# Positions in a source text

A source is a text together with the name it is reported under. A position is a
cursor into such a text: the number of characters before it, and the line and
column that a reader would give. Moving over a character is the only way a
position changes, and moving over a text is moving over its characters in order.
-/

namespace Script

/-- A text and the file name under which it is reported. -/
structure Source where
  text : String
  file : String
  deriving DecidableEq, Inhabited

/-- A cursor into a text. The offset counts characters, lines count from one and
columns from zero. -/
structure Position where
  offset : Nat
  line : Nat
  column : Nat
  deriving DecidableEq, Inhabited

namespace Position

/-- The position before the first character of any text. -/
def start : Position := ⟨0, 1, 0⟩

/-- Move over one character. Only a line feed begins a new line. -/
def advance (position : Position) (character : Char) : Position :=
  if character = '\n' then ⟨position.offset + 1, position.line + 1, 0⟩
  else ⟨position.offset + 1, position.line, position.column + 1⟩

/-- Move over the characters of a text in order. -/
def advanceOver (position : Position) (characters : List Char) : Position :=
  characters.foldl advance position

/-- The form in which a position is shown, with columns counted from one. -/
def label (position : Position) (file : String) : String :=
  file ++ ":" ++ toString position.line ++ ":" ++ toString (position.column + 1)

@[simp] theorem advanceOver_nil (position : Position) : position.advanceOver [] = position := rfl

@[simp] theorem advanceOver_cons (position : Position) (character : Char) (rest : List Char) :
    position.advanceOver (character :: rest) = (position.advance character).advanceOver rest := rfl

theorem advanceOver_append (position : Position) (first second : List Char) :
    position.advanceOver (first ++ second) = (position.advanceOver first).advanceOver second :=
  List.foldl_append

end Position

end Script
