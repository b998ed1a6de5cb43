/-
# Values as text

The display form of a value and its quoted form, which differ only for a string
that is not inside another value: inside, strings are always quoted. What lies more
than eight levels below the value shown is left out, so that the text is finite even
where namespaces hold each other.
-/

import Script.Heap.Basic
import Script.Number.Display
import Script.Text.Quoted

namespace Script.Value

/-- The text of a boolean. -/
def truthText (value : Bool) : String := if value then "true" else "false"

/-- The text of a value of which a number of levels is shown. -/
def render (heap : Heap) : Nat → Bool → Value → String
  | 0, _, _ => "\x7b...\x7d"
  | levels + 1, quoted, value =>
    match value with
    | number value => value.display
    | boolean value => truthText value
    | string value => if quoted then Text.quote value else value
    | list items => "\x7b" ++ ", ".intercalate (items.map (render heap levels true)) ++ "\x7d"
    | function name _ => "<function " ++ name ++ ">"
    | space _ frame =>
      match (heap.frame frame).bindings with
      | [] => "\x7b\x7d"
      | bindings =>
        let members := bindings.map fun (name, binding) =>
          name ++ "=" ++ render heap levels true binding.value
        "\x7b " ++ ", ".intercalate members ++ " \x7d"
    | nil => "nil"

/-- The levels of a value that are shown: itself and eight below it. -/
def shownLevels : Nat := 9

/-- The form in which a value is printed. -/
def display (heap : Heap) (value : Value) : String := value.render heap shownLevels false

/-- The form in which a value is compared and inspected. -/
def repr (heap : Heap) (value : Value) : String := value.render heap shownLevels true

/-- The kind of a value and its content, or its name if it has one. -/
def inspect (heap : Heap) : Value → String
  | function name _ => "Function(" ++ name ++ ")"
  | space name _ => "Namespace(" ++ name ++ ")"
  | value => value.tag.name ++ "(" ++ value.repr heap ++ ")"

end Script.Value
