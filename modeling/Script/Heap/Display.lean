/-
# Frames as text

A frame is shown by its names and by whether another encloses it. Values are left
out, since a value may lead back to the frame that holds it.
-/

import Script.Heap.Frame
import Script.Text.Quoted

namespace Script.Frame

/-- The names of a frame in the order of definition, quoted, and whether another
frame encloses it. -/
def display (frame : Frame) : String :=
  let names := frame.bindings.map fun (name, _) => Text.quote name
  "Environment \x7b names: [" ++ ", ".intercalate names ++ "], enclosed: " ++
    (if frame.enclosing.isSome then "true" else "false") ++ " \x7d"

end Script.Frame
