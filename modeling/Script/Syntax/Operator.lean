/-
# Operators

The operators of expressions and the tokens that denote them. A minus or a plus
may stand between two operands or before one.
-/

import Script.Token.Basic

namespace Script

/-- An operator between two operands. -/
inductive BinaryOperator where
  | add | subtract | multiply | divide | modulo
  | equal | notEqual | less | lessEqual | greater | greaterEqual
  | and | or
  deriving DecidableEq

/-- An operator before one operand. -/
inductive UnaryOperator where
  | negate | plus | not
  deriving DecidableEq

namespace BinaryOperator

/-- How an operator is written. -/
def symbol : BinaryOperator → String
  | add => "+"
  | subtract => "-"
  | multiply => "*"
  | divide => "/"
  | modulo => "%"
  | equal => "=="
  | notEqual => "!="
  | less => "<"
  | lessEqual => "<="
  | greater => ">"
  | greaterEqual => ">="
  | and => "and"
  | or => "or"

/-- Every operator between two operands. -/
def all : List BinaryOperator :=
  [add, subtract, multiply, divide, modulo, equal, notEqual, less, lessEqual, greater,
    greaterEqual, and, or]

/-- The operator that is written in a given way, if one is. -/
def ofSymbol? (symbol : String) : Option BinaryOperator :=
  all.find? (·.symbol = symbol)

/-- The operators that bind tightest. -/
def ofFactorKind? : Token.Kind → Option BinaryOperator
  | .star => some multiply
  | .slash => some divide
  | .percent => some modulo
  | _ => none

/-- The operators between factors. -/
def ofTermKind? : Token.Kind → Option BinaryOperator
  | .plus => some add
  | .minus => some subtract
  | _ => none

/-- The operators between sums. -/
def ofComparisonKind? : Token.Kind → Option BinaryOperator
  | .equalEqual => some equal
  | .bangEqual => some notEqual
  | .less => some less
  | .lessEqual => some lessEqual
  | .greater => some greater
  | .greaterEqual => some greaterEqual
  | _ => none

/-- The operators that bind loosest. Both stand on one level. -/
def ofLogicalKind? : Token.Kind → Option BinaryOperator
  | .keyword .andWord => some and
  | .keyword .orWord => some or
  | _ => none

end BinaryOperator

namespace UnaryOperator

/-- How an operator is written. -/
def symbol : UnaryOperator → String
  | negate => "-"
  | plus => "+"
  | not => "not"

/-- The sign that a token denotes before an operand. -/
def ofSignKind? : Token.Kind → Option UnaryOperator
  | .minus => some negate
  | .plus => some plus
  | _ => none

/-- The negation of truth, if a token denotes it. -/
def ofNotKind? : Token.Kind → Option UnaryOperator
  | .keyword .notWord => some not
  | _ => none

end UnaryOperator

end Script
