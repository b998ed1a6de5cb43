/-
# The state of a session

What evaluation reads and changes: the frames, the functions made so far, the calls
that are active, and the sink that takes what a program prints. A sink may have a
limit; a text that would go beyond it is refused as a whole.
-/

import Script.Eval.Fault
import Script.Eval.Function

namespace Script

/-- Where printed text goes. It keeps the text that nobody has taken yet and counts
the bytes of all text. -/
structure Sink where
  pending : String
  used : Nat
  limit : Option Nat

namespace Sink

/-- A sink into which nothing was written. -/
def empty (limit : Option Nat) : Sink := ⟨"", 0, limit⟩

/-- Whether a sink has room for a text. An empty text needs none. -/
def hasRoom (sink : Sink) (text : String) : Bool :=
  text.isEmpty || sink.limit.all (sink.used + text.utf8ByteSize ≤ ·)

/-- Write a text for which there is room. -/
@[inline] def write (sink : Sink) (text : String) : Sink :=
  ⟨sink.pending ++ text, sink.used + text.utf8ByteSize, sink.limit⟩

/-- Take the text that nobody has taken yet. -/
def take (sink : Sink) : String × Sink := (sink.pending, { sink with pending := "" })

end Sink

/-- What evaluation reads and changes. -/
structure State (σ : Type) where
  heap : Heap
  functions : Array (Function σ)
  /-- The active calls, the innermost first. -/
  calls : List (Call σ)
  sink : Sink

namespace State

variable {σ : Type}

/-- The frame in which programs run. -/
def globals : FrameId := ⟨0⟩

/-- The most calls that may be active at once. -/
def maxCalls : Nat := 1000

/-- A state with one frame and nothing bound in it. -/
def blank (limit : Option Nat) : State σ :=
  ⟨(Heap.empty.push none).2, #[], [], .empty limit⟩

/-- The function at a place. -/
def function? (state : State σ) (id : FunctionId) : Option (Function σ) :=
  state.functions[id.index]?

/-- A new function and the state with it. -/
@[inline] def pushFunction (state : State σ) (function : Function σ) : FunctionId × State σ :=
  let ⟨heap, functions, calls, sink⟩ := state
  (⟨functions.size⟩, ⟨heap, functions.push function, calls, sink⟩)

/-- The state with one more call active. -/
@[inline] def pushCall (state : State σ) (call : Call σ) : State σ :=
  let ⟨heap, functions, calls, sink⟩ := state
  ⟨heap, functions, call :: calls, sink⟩

/-- The state when the innermost call has ended. -/
@[inline] def popCall (state : State σ) : State σ :=
  let ⟨heap, functions, calls, sink⟩ := state
  ⟨heap, functions, calls.tail, sink⟩

/-- Bind a global name to a value. -/
def defineGlobal (state : State σ) (name : String) (value : Value) : State σ :=
  { state with heap := state.heap.define globals name value }

/-- Bind a global name to a function that every session begins with. -/
def defineNative (state : State σ) (native : Native) : State σ :=
  let (id, state) := state.pushFunction (.native native)
  state.defineGlobal native.name (.function native.name id)

/-- The state that every session begins with: the constants and the native functions
are bound, and nothing has been printed. -/
def initial (limit : Option Nat) : State σ :=
  let constants :=
    (((blank limit).defineGlobal "true" (.boolean true)).defineGlobal "false"
      (.boolean false)).defineGlobal "nil" .nil
  Native.all.foldl defineNative constants

end State

end Script
