/-
# Frames

A frame is one scope: bindings in the order in which their names were first bound,
and an index from a name to the place of its binding. A binding keeps the type that
it was declared with; every value it is given later is checked against that type.
-/

import Script.Value.Basic
import Std.Data.TreeMap

namespace Script

/-- A value, and the type that every value in its place must have. -/
structure Binding where
  value : Value
  declared : TypeTag
  deriving Inhabited

/-- Why a name cannot be bound or looked up. -/
inductive BindingError where
  | undefined (name : String)
  | alreadyDeclared (name : String)
  | redeclared (name : String) (previous requested : TypeTag)
  | incompatible (expected found : TypeTag)
  deriving DecidableEq

/-- The reason as a reader sees it. -/
def BindingError.message : BindingError → String
  | undefined name => "'" ++ name ++ "' is not defined"
  | alreadyDeclared name => "'" ++ name ++ "' is already defined in this scope"
  | redeclared name previous requested =>
    "'" ++ name ++ "' was declared as " ++ previous.name ++ ", cannot redeclare it as " ++
      requested.name
  | incompatible expected found => "cannot convert " ++ found.name ++ " to " ++ expected.name

/-- One scope. -/
structure Frame where
  enclosing : Option FrameId
  slots : Array (String × Binding)
  index : Std.TreeMap String Nat

namespace Frame

/-- A frame without bindings. -/
def empty (enclosing : Option FrameId) : Frame := ⟨enclosing, #[], Std.TreeMap.empty⟩

/-- The place of a name's binding. -/
def slot? (frame : Frame) (name : String) : Option Nat := frame.index[name]?

/-- The binding at a place. -/
def bindingAt? (frame : Frame) (slot : Nat) : Option Binding := (frame.slots[slot]?).map (·.2)

/-- The binding of a name in this very frame. -/
def binding? (frame : Frame) (name : String) : Option Binding :=
  (frame.slot? name).bind frame.bindingAt?

/-- Bind a name, in its old place if it has one. -/
def insert (frame : Frame) (name : String) (binding : Binding) : Frame :=
  match frame.slot? name with
  | some slot => { frame with slots := frame.slots.setIfInBounds slot (name, binding) }
  | none =>
    { frame with
      slots := frame.slots.push (name, binding)
      index := frame.index.insert name frame.slots.size }

/-- Give the binding at a place another value and let it keep its type. -/
def setValue (frame : Frame) (slot : Nat) (value : Value) : Frame :=
  { frame with
    slots := frame.slots.modify slot fun (name, binding) => (name, { binding with value }) }

/-- The names of a frame with their bindings, in the order of definition. -/
def bindings (frame : Frame) : List (String × Binding) := frame.slots.toList

/-- The number of names that a frame binds. -/
def size (frame : Frame) : Nat := frame.slots.size

/-- Why a name cannot be declared in a frame, if it cannot. -/
def declareError? (frame : Frame) (name : String) (value : Value) (declared : TypeTag) :
    Option BindingError :=
  match frame.binding? name with
  | some existing =>
    some (if existing.declared = declared then .alreadyDeclared name
      else .redeclared name existing.declared declared)
  | none => if declared.accepts value then none else some (.incompatible declared value.tag)

/-- Why the binding at a place cannot be given a value, if it cannot. -/
def setError? (frame : Frame) (slot : Nat) (value : Value) : Option BindingError :=
  match frame.bindingAt? slot with
  | some binding =>
    if binding.declared.accepts value then none
    else some (.incompatible binding.declared value.tag)
  | none => none

end Frame

end Script
