/-
# Functions

A function is either one of the four that every session begins with, or the body of
a definition together with the frame it was defined in.
-/

import Script.Syntax.Tree
import Script.Value.Basic

namespace Script

/-- The functions that every session begins with. -/
inductive Native where
  | print | println | len | str
  deriving DecidableEq

namespace Native

/-- Every such function, in the order of their names' bindings. -/
def all : List Native := [print, println, len, str]

/-- The name under which a session begins with a function. -/
def name : Native → String
  | print => "print"
  | println => "println"
  | len => "len"
  | str => "str"

end Native

/-- A parameter whose type is known. -/
structure TypedName where
  name : String
  declared : TypeTag

/-- A defined function. Its body gives the result, or returns it. -/
structure Closure (σ : Type) where
  parameters : List TypedName
  returnType : TypeTag
  givesBody : Bool
  body : Tree σ
  scope : FrameId

/-- What can be called. -/
inductive Function (σ : Type) where
  | native (function : Native)
  | closure (definition : Closure σ)

/-- The number of arguments that a function takes. -/
def Function.arity {σ : Type} : Function σ → Nat
  | native _ => 1
  | closure definition => definition.parameters.length

end Script
