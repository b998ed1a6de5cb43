/-
# Values

What an expression can evaluate to. Functions and namespaces are known by their
place in the state of a session, so that two of them are the same only if they
arose from the same definition at the same time; they carry the name of that
definition with them.
-/

import Script.Number.Basic
import Script.TypeTag

namespace Script

/-- The place of a frame. -/
structure FrameId where
  index : Nat
  deriving DecidableEq, Inhabited

/-- The place of a function. -/
structure FunctionId where
  index : Nat
  deriving DecidableEq, Inhabited

/-- What an expression can evaluate to. -/
inductive Value where
  | number (value : Number)
  | boolean (value : Bool)
  | string (value : String)
  | list (items : List Value)
  | function (name : String) (id : FunctionId)
  | space (name : String) (frame : FrameId)
  | nil
  deriving Inhabited

/-- The kind of a number as a type. -/
def Number.tag : Number → TypeTag
  | int _ => .int
  | long _ => .long
  | double _ => .double

namespace Value

/-- The kind of a value as a type. -/
def tag : Value → TypeTag
  | number value => value.tag
  | boolean _ => .boolean
  | string _ => .string
  | list _ => .list
  | function .. => .function
  | space .. => .ns
  | nil => .void

/-- The number that a value is. -/
def number? : Value → Option Number
  | number value => some value
  | _ => none

/-- The integer that a value is, at the greater width. -/
def integer? : Value → Option Int64
  | number (.int value) => some value.toInt64
  | number (.long value) => some value
  | _ => none

/-- Whether a condition with a given value holds. Zero, the empty string, the empty
list and nil do not. -/
def isTruthy : Value → Bool
  | number value => !value.isZero
  | boolean value => value
  | string value => !value.isEmpty
  | list items => !items.isEmpty
  | function .. | space .. => true
  | nil => false

/-- Whether a value is nil. -/
def isNil : Value → Bool
  | nil => true
  | _ => false

mutual

/-- Whether two values are the same. Numbers of different kinds are not, and neither
are two functions or namespaces that look alike. -/
def same : Value → Value → Bool
  | number left, number right => left == right
  | boolean left, boolean right => left == right
  | string left, string right => left == right
  | list left, list right => sameEach left right
  | function _ left, function _ right => left = right
  | space _ left, space _ right => left = right
  | nil, nil => true
  | _, _ => false

/-- Whether two lists hold the same values in the same order. -/
def sameEach : List Value → List Value → Bool
  | [], [] => true
  | left :: lefts, right :: rights => same left right && sameEach lefts rights
  | _, _ => false

end

end Value

/-- Whether a value may be bound under a type. -/
def TypeTag.accepts (tag : TypeTag) (value : Value) : Bool := tag.admits value.tag

end Script
