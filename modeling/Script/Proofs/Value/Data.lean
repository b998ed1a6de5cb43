/-
# Data

Values that are made of 32-bit integers, booleans, nil, strings and lists, and how the
text of such a value looks as a tree. A negative integer is a minus before a number; the
number before which it stands is too large by one for the least integer, and wraps to it.
-/

import Script.Syntax.Tree
import Script.Text.Quoted
import Script.Value.Basic

namespace Script

/-- A character that stands between quotes as itself, or as a backslash and one of the
characters that are read as it again. -/
def Text.IsReadable (character : Char) : Prop :=
  escape character = [character] ∨
    ∃ short ∈ ['"', '\\', 'n', 'r', 't'], escape character = ['\\', short]

/-- Decided through the five characters only, where one could search among all of them. -/
instance (character : Char) : Decidable (Text.IsReadable character) :=
  @instDecidableOr _ _ _ (List.decidableBEx _ _)

namespace Value

mutual

/-- A value that is made of 32-bit integers, booleans, nil, strings of readable characters
and lists of such values. -/
def IsData : Value → Prop
  | .number (.int _) | .boolean _ | .nil => True
  | .string text => ∀ character ∈ text.toList, Text.IsReadable character
  | .list items => AreData items
  | .number (.long _) | .number (.double _) | .function .. | .space .. => False

/-- Values that are data, all of them. -/
def AreData : List Value → Prop
  | [] => True
  | item :: rest => IsData item ∧ AreData rest

end

mutual

/-- How many levels the deepest element of a value lies below it. -/
def depth : Value → Nat
  | .list items => depthBelow items
  | _ => 0

/-- How many levels the deepest of some elements lies below their list. -/
def depthBelow : List Value → Nat
  | [] => 0
  | item :: rest => max (depth item + 1) (depthBelow rest)

end

mutual

/-- The tree that the text of a value is. -/
def literal : Value → Tree Unit
  | .number (.int value) =>
    if value.toInt < 0 then .unary () .negate (.number () (.int (-value)))
    else .number () (.int value)
  | .number value => .number () value
  | .boolean value => .identifier () (if value then "true" else "false")
  | .string text => .string () text
  | .list items => .list () (literals items)
  | .function name _ | .space name _ => .identifier () name
  | .nil => .identifier () "nil"

/-- The trees that the texts of values are. -/
def literals : List Value → List (Tree Unit)
  | [] => []
  | item :: rest => literal item :: literals rest

end

theorem areData_iff {items : List Value} : AreData items ↔ ∀ item ∈ items, IsData item := by
  induction items with
  | nil => simp [AreData]
  | cons item rest ih => rw [AreData, ih, List.forall_mem_cons]

theorem isData_list_iff {items : List Value} :
    IsData (.list items) ↔ ∀ item ∈ items, IsData item := by
  rw [IsData, areData_iff]

theorem depth_lt_of_mem {items : List Value} {item : Value} (h : item ∈ items) :
    depth item < depth (.list items) := by
  rw [depth]
  induction items with
  | nil => cases h
  | cons first rest ih =>
      rw [depthBelow]
      obtain rfl | hrest := List.mem_cons.mp h
      · omega
      · have hlt := ih hrest
        omega

theorem literals_eq_map (items : List Value) : literals items = items.map literal := by
  induction items with
  | nil => rfl
  | cons item rest ih => rw [literals, ih, List.map_cons]

theorem sameEach_self {items : List Value} (h : ∀ item ∈ items, same item item = true) :
    sameEach items items = true := by
  induction items with
  | nil => rfl
  | cons item rest ih =>
      obtain ⟨hitem, hrest⟩ := List.forall_mem_cons.mp h
      rw [sameEach, hitem, ih hrest]
      rfl

/-- Data is the same as itself, as values are compared. -/
theorem same_self : ∀ {value : Value}, IsData value → same value value = true
  | .number (.int value), _ => by
      have hequal : (Number.int value == .int value) = (value == value) := rfl
      rw [same, hequal, beq_self_eq_true]
  | .boolean value, _ => by rw [same, beq_self_eq_true]
  | .string text, _ => by rw [same, beq_self_eq_true]
  | .list items, h => by
      rw [same]
      exact sameEach_self fun item hitem => same_self (isData_list_iff.mp h item hitem)
  | .nil, _ => rfl

end Value

end Script
