/-
# The piece at the front of a text

Reading a text proceeds by pieces: a blank, a comment, a token, or a place where
no token can begin. What the next piece is depends on its first character and on
what follows it; the reading never looks back. A piece is described by its content
and by the number of characters it takes behind its first one, so that the
characters taken and the characters left always make up the text.
-/

import Script.Category
import Script.Token.Basic

namespace Script.Token

/-- Why no piece can be read at some place. -/
inductive Problem where
  | illegalCharacter (character : Char)
  | bangWithoutEqual
  | unterminatedComment
  | unterminatedString
  /-- A number with a point from whose text no double can be made. -/
  | malformedNumber (text : String)
  deriving DecidableEq

namespace Problem

/-- The category under which a problem is reported. -/
def category : Problem → Category
  | illegalCharacter _ | malformedNumber _ => .illegalCharacter
  | bangWithoutEqual => .expectedCharacter
  | unterminatedComment | unterminatedString => .unterminatedLiteral

/-- The problem as a reader sees it. -/
def message : Problem → String
  | illegalCharacter character => "'" ++ character.toString ++ "'"
  | bangWithoutEqual => "'=' (after '!')"
  | unterminatedComment => "unterminated comment"
  | unterminatedString => "unterminated string"
  | malformedNumber text => "malformed number '" ++ text ++ "'"

end Problem

/-- What a piece of a text is. -/
inductive Content where
  /-- A blank or a comment. -/
  | gap
  | token (kind : Kind) (literal : Option Literal)
  | problem (problem : Problem)

/-- A piece: its content, and how many characters it takes behind its first. -/
structure Piece where
  content : Content
  length : Nat

/-- A token without a value. -/
def Piece.plain (kind : Kind) (length : Nat) : Piece := ⟨.token kind none, length⟩

/-! ## Classes of characters -/

/-- Whether an identifier may begin with a character. -/
def isNameStart (character : Char) : Bool :=
  character.isAlpha || character = '_' || character = '$'

/-- Whether an identifier may go on with a character. -/
def isNamePart (character : Char) : Bool :=
  character.isAlphanum || character = '_'

/-- Whether a character is the suffix of a long number. -/
def isLongSuffix (character : Char) : Bool :=
  character = 'L' || character = 'l'

/-- The token that a character is by itself, whatever follows. -/
def punctuation? : Char → Option Kind
  | '(' => some .leftParen
  | ')' => some .rightParen
  | '{' => some .leftBrace
  | '}' => some .rightBrace
  | '[' => some .leftBracket
  | ']' => some .rightBracket
  | ',' => some .comma
  | '-' => some .minus
  | '+' => some .plus
  | '*' => some .star
  | '%' => some .percent
  | ';' => some .separator
  | '\n' => some .separator
  | _ => none

/-- The tokens that a character is alone and together with an equals sign. -/
def relation? : Char → Option (Kind × Kind)
  | '=' => some (.equal, .equalEqual)
  | '<' => some (.less, .lessEqual)
  | '>' => some (.greater, .greaterEqual)
  | _ => none

/-! ## Comments, strings, numbers and names -/

/-- The length of a comment behind its opening, up to and with the first closing. -/
def commentLength? : List Char → Option Nat
  | [] => none
  | '*' :: '/' :: _ => some 2
  | _ :: rest => (commentLength? rest).map (· + 1)

/-- The character that a backslash and a character stand for in a string. -/
def unescape : Char → Char
  | 'n' => '\n'
  | 't' => '\t'
  | 'r' => '\r'
  | character => character

/-- The value of a string behind its opening quote, and its length up to and with
the closing quote. -/
def stringBody? : List Char → Option (List Char × Nat)
  | [] => none
  | '"' :: _ => some ([], 1)
  | ['\\'] => none
  | '\\' :: character :: rest =>
    (stringBody? rest).map fun (value, length) => (unescape character :: value, length + 2)
  | character :: rest =>
    (stringBody? rest).map fun (value, length) => (character :: value, length + 1)

/-- A written number: the digits before the point, those after it if there is a
point, and whether it has the suffix of a long. -/
structure Numeral where
  whole : List Char
  fraction : Option (List Char)
  suffixed : Bool

/-- Whether a point belongs to the digits before it, judged by what follows it. A
point before a name selects a member, unless the name may be a suffix. -/
def pointBelongs (after : List Char) : Bool :=
  match after with
  | [] => true
  | character :: _ => !isNameStart character || isLongSuffix character

/-- The digits behind a decimal point at the front of a text. -/
def fraction? : List Char → Option (List Char)
  | '.' :: after => if pointBelongs after then some (after.takeWhile Char.isDigit) else none
  | _ => none

/-- Whether the suffix of a long number is at the front of a text. -/
def startsWithSuffix : List Char → Bool
  | character :: _ => isLongSuffix character
  | [] => false

/-- A text with a zero in front of a point at its beginning and behind one at its end. -/
def padPoints (text : List Char) : List Char :=
  let led := if text.head? = some '.' then '0' :: text else text
  if led.getLast? = some '.' then led ++ ['0'] else led

/-- Whether a text is made of digits, a point and digits, so that it denotes a double. -/
def isDecimal (text : List Char) : Bool :=
  match text.dropWhile Char.isDigit with
  | '.' :: digits =>
    !(text.takeWhile Char.isDigit).isEmpty && !digits.isEmpty && digits.all Char.isDigit
  | _ => false

namespace Numeral

/-- The number at the front of a text. -/
def read (characters : List Char) : Numeral :=
  let whole := characters.takeWhile Char.isDigit
  let rest := characters.dropWhile Char.isDigit
  match fraction? rest with
  | none => ⟨whole, none, startsWithSuffix rest⟩
  | some digits => ⟨whole, some digits, startsWithSuffix (rest.drop (digits.length + 1))⟩

/-- The number of characters of a written number. -/
def length (numeral : Numeral) : Nat :=
  numeral.whole.length + (numeral.fraction.elim 0 (·.length + 1)) + numeral.suffixed.toNat

/-- The number that is written. A point makes it a double, whatever its suffix. The decimal is
rounded once, from its exact value to the nearest double, and to the even one of two that are
equally near. -/
def value (numeral : Numeral) : Number :=
  match numeral.fraction with
  | none => Number.ofDigits numeral.whole numeral.suffixed
  | some digits =>
    -- `Float.ofScientific` cuts nothing off: below `2 ^ 53` and up to `10 ^ 22` it divides exact
    -- doubles, and elsewhere it rounds an exact quotient of integers.
    .double (Float.ofScientific (Number.digitsValue (numeral.whole ++ digits)) true digits.length)

/-- What is wrong with a written number. The text around a point has to denote a double
once it has a digit at each end. -/
def problem? (numeral : Numeral) : Option Problem :=
  match numeral.fraction with
  | none => none
  | some digits =>
    let text := padPoints (numeral.whole ++ '.' :: digits)
    if isDecimal text then none else some (.malformedNumber (String.ofList text))

end Numeral

/-- The kind of the token that denotes a number. -/
def numberKind : Number → Kind
  | .int _ => .int
  | .long _ => .long
  | .double _ => .double

/-- A number with a given first character. -/
def readNumber (first : Char) (after : List Char) : Piece :=
  let numeral := Numeral.read (first :: after)
  match numeral.problem? with
  | none => ⟨.token (numberKind numeral.value) (some (.number numeral.value)), numeral.length - 1⟩
  | some problem => ⟨.problem problem, numeral.length - 1⟩

/-- A comment behind its slash. -/
def readComment (after : List Char) : Piece :=
  match commentLength? (after.drop 1) with
  | some length => ⟨.gap, length + 1⟩
  | none => ⟨.problem .unterminatedComment, after.length⟩

/-- A string behind its opening quote. -/
def readString (after : List Char) : Piece :=
  match stringBody? after with
  | some (value, length) => ⟨.token .string (some (.string (String.ofList value))), length⟩
  | none => ⟨.problem .unterminatedString, after.length⟩

/-- An identifier or a keyword with a given first character. -/
def readName (first : Char) (after : List Char) : Piece :=
  let others := after.takeWhile isNamePart
  let kind :=
    match Keyword.ofSpelling? (String.ofList (first :: others)) with
    | some word => .keyword word
    | none => .identifier
  .plain kind others.length

/-- Whether a text begins with a given character. -/
def startsWith (text : List Char) (character : Char) : Bool :=
  text.head? = some character

/-- The piece with a given first character. -/
def Piece.read (first : Char) (after : List Char) : Piece :=
  match punctuation? first, relation? first with
  | some kind, _ => .plain kind 0
  | none, some (alone, withEqual) =>
    if startsWith after '=' then .plain withEqual 1 else .plain alone 0
  | none, none =>
    if first = ' ' ∨ first = '\r' ∨ first = '\t' then ⟨.gap, 0⟩
    else if first = '!' then
      if startsWith after '=' then .plain .bangEqual 1 else ⟨.problem .bangWithoutEqual, 0⟩
    else if first = '/' then
      if startsWith after '*' then readComment after else .plain .slash 0
    else if first = '.' then
      if after.head?.any Char.isDigit then readNumber first after else .plain .dot 0
    else if first = '"' then readString after
    else if first.isDigit then readNumber first after
    else if isNameStart first then readName first after
    else ⟨.problem (.illegalCharacter first), 0⟩

end Script.Token
