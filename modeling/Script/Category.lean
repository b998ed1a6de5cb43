/-
# Categories of failures

Every failure of a script, whatever stage it arises in, belongs to one of ten
categories. The category is what a report begins with.
-/

namespace Script

/-- What kind of thing went wrong. -/
inductive Category where
  | illegalCharacter | expectedCharacter | unterminatedLiteral
  | invalidSyntax
  | undefinedName | illegalOperation | divisionByZero | argumentCount
  | incompatibleTypes | redeclaration
  deriving DecidableEq

/-- The heading of a report. -/
def Category.title : Category → String
  | illegalCharacter => "Illegal Character"
  | expectedCharacter => "Expected Character"
  | unterminatedLiteral => "Unterminated Literal"
  | invalidSyntax => "Invalid Syntax"
  | undefinedName => "Undefined Name"
  | illegalOperation => "Illegal Operation"
  | divisionByZero => "Division By Zero"
  | argumentCount => "Argument Count"
  | incompatibleTypes => "Incompatible Types"
  | redeclaration => "Redeclaration"

end Script
