/-
# The heap of frames

All frames of a session, in the order in which they were made. A frame is enclosed
by an older one, so following the links from a frame takes at most as many steps as
its place tells, and looking a name up along them always ends. An operation that can
fail gives the heap that it leaves behind in either case.
-/

import Script.Heap.Frame

namespace Script

/-- The frames of a session. -/
structure Heap where
  frames : Array Frame

namespace Heap

/-- How an operation that may fail ends, with the heap that it leaves behind. -/
inductive Change where
  | ok (after : Heap)
  | error (problem : BindingError) (after : Heap)

/-- A change tells the heap, or the problem alone. -/
instance : CoeOut Change (Except BindingError Heap) where
  coe
    | .ok after => .ok after
    | .error problem _ => .error problem

/-- A heap without frames. -/
def empty : Heap := ⟨#[]⟩

/-- The frame at a place. A place that was never given out holds no names. -/
def frame (heap : Heap) (id : FrameId) : Frame :=
  (heap.frames[id.index]?).getD (.empty none)

/-- A new frame and the heap with it. -/
def push (heap : Heap) (enclosing : Option FrameId) : FrameId × Heap :=
  (⟨heap.frames.size⟩, ⟨heap.frames.push (.empty enclosing)⟩)

/-- The nearest frame that binds a name, along at most the given number of links,
and the place of the binding there. -/
def locateWithin (heap : Heap) (name : String) : Nat → FrameId → Option (FrameId × Nat)
  | 0, _ => none
  | links + 1, id =>
    let frame := heap.frame id
    match frame.slot? name with
    | some slot => some (id, slot)
    | none =>
      match frame.enclosing with
      | some outer => locateWithin heap name links outer
      | none => none

/-- The nearest frame that binds a name, and the place of the binding there. -/
def locate (heap : Heap) (id : FrameId) (name : String) : Option (FrameId × Nat) :=
  heap.locateWithin name (id.index + 1) id

/-- The value of a name as seen from a frame. -/
def get (heap : Heap) (id : FrameId) (name : String) : Except BindingError Value :=
  match heap.locate id name with
  | some (owner, slot) =>
    match (heap.frame owner).bindingAt? slot with
    | some binding => .ok binding.value
    | none => .error (.undefined name)
  | none => .error (.undefined name)

/-- The binding of a name in one frame. -/
def binding? (heap : Heap) (id : FrameId) (name : String) : Option Binding :=
  (heap.frame id).binding? name

/-- Bind a name in one frame, whatever it was bound to there. -/
@[inline] def insert (heap : Heap) (id : FrameId) (name : String) (binding : Binding) : Heap :=
  ⟨heap.frames.modify id.index (·.insert name binding)⟩

/-- Give the binding at a place of a frame another value. -/
@[inline] def setValue (heap : Heap) (id : FrameId) (slot : Nat) (value : Value) : Heap :=
  ⟨heap.frames.modify id.index (·.setValue slot value)⟩

/-- Bind a name in one frame under the kind of its value. -/
@[inline] def define (heap : Heap) (id : FrameId) (name : String) (value : Value) : Heap :=
  heap.insert id name ⟨value, value.tag⟩

/-- Bind a new name in one frame under a type. -/
@[inline] def declare (heap : Heap) (id : FrameId) (name : String) (value : Value)
    (declared : TypeTag) : Change :=
  match (heap.frame id).declareError? name value declared with
  | some error => .error error heap
  | none => .ok (heap.insert id name ⟨value, declared⟩)

/-- Give a name another value in the nearest frame that binds it. -/
@[inline] def assign (heap : Heap) (id : FrameId) (name : String) (value : Value) : Change :=
  match heap.locate id name with
  | none => .error (.undefined name) heap
  | some (owner, slot) =>
    match (heap.frame owner).setError? slot value with
    | some error => .error error heap
    | none => .ok (heap.setValue owner slot value)

/-- Give a name another value in one frame, or bind it there. -/
@[inline] def setLocal (heap : Heap) (id : FrameId) (name : String) (value : Value) : Change :=
  match (heap.frame id).slot? name with
  | none => .ok (heap.define id name value)
  | some slot =>
    match (heap.frame id).setError? slot value with
    | some error => .error error heap
    | none => .ok (heap.setValue id slot value)

/-- Bind a function or a namespace in one frame. A name that is bound there already
must have been bound to the same kind of thing. -/
@[inline] def bindDefinition (heap : Heap) (id : FrameId) (name : String) (value : Value) :
    Change :=
  match heap.binding? id name with
  | some existing =>
    if existing.declared = value.tag then .ok (heap.define id name value)
    else .error (.redeclared name existing.declared value.tag) heap
  | none => .ok (heap.define id name value)

end Heap

end Script
