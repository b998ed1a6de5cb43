/-
# Actions

What evaluation asks of a session, one action at a time. An action gives a result,
or it fails with an error at its site; one that fails changes nothing. Only actions
read and change the heap, the functions and the sink.
-/

import Script.Eval.State

namespace Script

/-- The length of a value that has one. -/
def Value.length? (heap : Heap) : Value → Option Nat
  | .string text => some text.length
  | .list items => some items.length
  | .space _ frame => some (heap.frame frame).size
  | _ => none

/-- What evaluation asks of a session, with the type of the result. -/
inductive Action (σ : Type) : Type → Type where
  /-- The value of a name as seen from a frame. -/
  | lookup (site : σ) (scope : FrameId) (name : String) : Action σ Value
  /-- A member of a namespace, or nil. -/
  | member (frame : FrameId) (name : String) : Action σ Value
  /-- What a value holds at a key. -/
  | element (site : σ) (object key : Value) : Action σ Value
  /-- What an operator gives for two values. -/
  | apply (site : σ) (operator : BinaryOperator) (left right : Value) : Action σ Value
  /-- A value as it is printed. -/
  | display (value : Value) : Action σ String
  /-- The length of a value that has one. -/
  | length? (value : Value) : Action σ (Option Nat)
  /-- A new frame inside another. -/
  | enter (scope : FrameId) : Action σ FrameId
  /-- Declare a name in a frame. -/
  | declare (site : σ) (scope : FrameId) (name : String) (declared : TypeTag) (value : Value) :
      Action σ Unit
  /-- Give a name another value. -/
  | assign (site : σ) (scope : FrameId) (name : String) (value : Value) : Action σ Unit
  /-- Set a member of a namespace. -/
  | setMember (site : σ) (frame : FrameId) (name : String) (value : Value) : Action σ Unit
  /-- Bind a function or a namespace in a frame. -/
  | bindDefinition (site : σ) (scope : FrameId) (name : String) (value : Value) : Action σ Unit
  /-- A new function. -/
  | pushFunction (function : Function σ) : Action σ FunctionId
  /-- The function at a place. -/
  | function? (id : FunctionId) : Action σ (Option (Function σ))
  /-- Print a text, if the sink has room for it. -/
  | write (site : σ) (text : String) : Action σ Unit
  /-- Fail. -/
  | raise (fault : Fault) (site : σ) : Action σ Empty

namespace State

variable {σ α : Type}

/-- A result, or an error at a site. The calls that are active become part of it. -/
def answer (state : State σ) (site : σ) (result : Except Fault α) :
    Except (RuntimeError σ) α × State σ :=
  match result with
  | .ok value => (.ok value, state)
  | .error fault => (.error ⟨fault, site, state.calls⟩, state)

/-- Change the heap by an operation that may fail. -/
@[always_inline, inline]
def changeHeap (site : σ) (operation : Heap → Heap.Change) :
    State σ → Except (RuntimeError σ) Unit × State σ
  | ⟨heap, functions, calls, sink⟩ =>
    match operation heap with
    | .ok heap => (.ok (), ⟨heap, functions, calls, sink⟩)
    | .error error heap =>
      (.error ⟨.binding error, site, calls⟩, ⟨heap, functions, calls, sink⟩)

/-- Print a text, if the sink has room for it. -/
def write (site : σ) (text : String) : State σ → Except (RuntimeError σ) Unit × State σ
  | ⟨heap, functions, calls, sink⟩ =>
    if sink.hasRoom text then (.ok (), ⟨heap, functions, calls, sink.write text⟩)
    else (.error ⟨.sinkFull, site, calls⟩, ⟨heap, functions, calls, sink⟩)

/-- A new frame inside another, and the state with it. -/
def enter (scope : FrameId) : State σ → FrameId × State σ
  | ⟨heap, functions, calls, sink⟩ =>
    let (id, heap) := heap.push (some scope)
    (id, ⟨heap, functions, calls, sink⟩)

end State

/-- Do what an action asks for. -/
def Action.run {σ α : Type} :
    Action σ α → State σ → Except (RuntimeError σ) α × State σ
  | .lookup site scope name, state =>
    state.answer site ((state.heap.get scope name).mapError .binding)
  | .member frame name, state =>
    (.ok ((state.heap.binding? frame name).elim .nil (·.value)), state)
  | .element site object key, state =>
    state.answer site ((object.index state.heap key).mapError .operation)
  | .apply site operator left right, state =>
    state.answer site ((Value.apply state.heap operator left right).mapError .operation)
  | .display value, state => (.ok (value.display state.heap), state)
  | .length? value, state => (.ok (value.length? state.heap), state)
  | .enter scope, state =>
    let (id, state) := state.enter scope
    (.ok id, state)
  | .declare site scope name declared value, state =>
    state.changeHeap site fun heap => heap.declare scope name value declared
  | .assign site scope name value, state =>
    state.changeHeap site fun heap => heap.assign scope name value
  | .setMember site frame name value, state =>
    state.changeHeap site fun heap => heap.setLocal frame name value
  | .bindDefinition site scope name value, state =>
    state.changeHeap site fun heap => heap.bindDefinition scope name value
  | .pushFunction function, state =>
    let (id, state) := state.pushFunction function
    (.ok id, state)
  | .function? id, state => (.ok (state.function? id), state)
  | .write site text, state => state.write site text
  | .raise fault site, state => state.answer site (.error fault)

end Script
