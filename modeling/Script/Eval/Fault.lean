/-
# Faults

Why evaluation fails, and what a reader is told. A runtime error is a fault together
with the site where it arose and the calls that were active there, from which the
traceback is made.
-/

import Script.Category
import Script.Heap.Frame
import Script.Value.Operation

namespace Script

/-- Why evaluation fails. -/
inductive Fault where
  | binding (error : BindingError)
  | operation (error : OperationError)
  | unknownType (name : String)
  | noMember (kind : TypeTag) (name : String)
  | badKey (kind : TypeTag)
  | invalidTarget
  | notCallable (kind : TypeTag)
  | argumentCount (given expected : Nat) (function : String)
  | tooDeep
  | badReturn (found expected : TypeTag) (function : String)
  | noLength (kind : TypeTag)
  | sinkFull
  | strayReturn
  | strayBreak
  | strayContinue
  deriving DecidableEq

namespace Fault

/-- The category under which a fault is reported. -/
def category : Fault → Category
  | binding (.undefined _) => .undefinedName
  | binding (.alreadyDeclared _) => .redeclaration
  | binding (.redeclared ..) => .incompatibleTypes
  | binding (.incompatible ..) => .incompatibleTypes
  | operation .divisionByZero => .divisionByZero
  | unknownType _ => .undefinedName
  | argumentCount .. => .argumentCount
  | badReturn .. => .incompatibleTypes
  | _ => .illegalOperation

/-- How far a number of arguments is from the expected one. -/
def countText (given expected : Nat) : String :=
  if given > expected then toString (given - expected) ++ " too many"
  else toString (expected - given) ++ " too few"

/-- The fault as a reader sees it. -/
def message : Fault → String
  | binding error => error.message
  | operation error => error.message
  | unknownType name => "type '" ++ name ++ "' is not defined"
  | noMember kind name => "value of type " ++ kind.name ++ " has no member '" ++ name ++ "'"
  | badKey kind => "namespace keys must be strings, not " ++ kind.name
  | invalidTarget => "invalid assignment target"
  | notCallable kind => "value of type " ++ kind.name ++ " is not callable"
  | argumentCount given expected function =>
    countText given expected ++ " arguments passed into '" ++ function ++ "'"
  | tooDeep => "maximum recursion depth exceeded"
  | badReturn found expected function =>
    "cannot convert " ++ found.name ++ " to " ++ expected.name ++ " (return value of '" ++
      function ++ "')"
  | noLength kind => "value of type " ++ kind.name ++ " has no length"
  | sinkFull => "cannot write output: sink is full"
  | strayReturn => "'return' outside of a function"
  | strayBreak => "'break' outside of a loop"
  | strayContinue => "'continue' outside of a loop"

end Fault

/-- An active call: the function's name and the site it was called from. -/
structure Call (σ : Type) where
  name : String
  site : σ

/-- A fault, the site where it arose, and the calls that were active there, the
innermost first. -/
structure RuntimeError (σ : Type) where
  fault : Fault
  site : σ
  calls : List (Call σ)

end Script
