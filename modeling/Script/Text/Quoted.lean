/-
# Quoted text

A text between double quotes, on one line and with every character visible. The
quote, the backslash and four controls are written as a backslash and one
character; any other character without a visible form of its own is written by its
code.
-/

import Script.Text.Shown

namespace Script.Text

/-- The character that stands after a backslash for a character with a short
escape. -/
def shortEscape? : Char → Option Char
  | '"' => some '"'
  | '\\' => some '\\'
  | '\n' => some 'n'
  | '\r' => some 'r'
  | '\t' => some 't'
  | '\x00' => some '0'
  | _ => none

/-- A character's code in braces, in hexadecimal without padding. -/
def codeEscape (character : Char) : List Char :=
  '\\' :: 'u' :: '\x7b' :: Nat.toDigits 16 character.toNat ++ ['\x7d']

/-- A character as it is written between quotes. -/
def escape (character : Char) : List Char :=
  match shortEscape? character with
  | some short => ['\\', short]
  | none => if isShown character then [character] else codeEscape character

/-- A text between quotes. -/
def quote (text : String) : String :=
  String.ofList ('"' :: text.toList.flatMap escape ++ ['"'])

end Script.Text
