/-
# The growth of a store

The heap and the functions of a session only grow: a frame or a function that was made
once stays at its place, though what a frame binds may change.
-/

import Script.Proofs.Eval.Action
import Script.Proofs.Heap.Basic

namespace Script

variable {σ : Type}

/-- What values may refer to: the heap and the functions of a session. -/
structure Store (σ : Type) where
  heap : Heap
  functions : Array (Function σ)

/-- The heap and the functions of a state. -/
def State.store (state : State σ) : Store σ := ⟨state.heap, state.functions⟩

namespace Store

/-- The function at a place. -/
def function? (store : Store σ) (id : FunctionId) : Option (Function σ) :=
  store.functions[id.index]?

/-- The store with a function behind the others. -/
def pushFunction (store : Store σ) (function : Function σ) : Store σ :=
  { store with functions := store.functions.push function }

/-- The store with a frame inside another behind the others. -/
def pushFrame (store : Store σ) (scope : FrameId) : Store σ :=
  { store with heap := (store.heap.push (some scope)).2 }

/-- One store is as another or later in the same session. -/
structure Grows (before after : Store σ) : Prop where
  frames : before.heap.frames.size ≤ after.heap.frames.size
  functions : ∀ {id : FunctionId} {function : Function σ},
    before.function? id = some function → after.function? id = some function

namespace Grows

variable {first second third : Store σ}

theorem refl (store : Store σ) : store.Grows store :=
  ⟨Nat.le_refl _, id⟩

theorem trans (h : first.Grows second) (h' : second.Grows third) : first.Grows third :=
  ⟨Nat.le_trans h.frames h'.frames, fun hfunction => h'.functions (h.functions hfunction)⟩

theorem of_heap {store : Store σ} {heap : Heap}
    (h : store.heap.frames.size ≤ heap.frames.size) : store.Grows { store with heap } :=
  ⟨h, id⟩

theorem of_size_eq {store : Store σ} {heap : Heap}
    (h : heap.frames.size = store.heap.frames.size) : store.Grows { store with heap } :=
  of_heap (Nat.le_of_eq h.symm)

theorem pushFunction (store : Store σ) (function : Function σ) :
    store.Grows (store.pushFunction function) := by
  refine ⟨Nat.le_refl _, ?_⟩
  intro id present hpresent
  rw [Store.function?] at hpresent ⊢
  have hlt := (Array.getElem?_eq_some_iff.mp hpresent).1
  rw [Store.pushFunction, Array.getElem?_push, if_neg (Nat.ne_of_lt hlt)]
  exact hpresent

theorem pushFrame (store : Store σ) (scope : FrameId) : store.Grows (store.pushFrame scope) :=
  of_heap (Heap.size_push_le _ _)

end Grows

end Store

/-! ## Actions -/

/-- Every action only lets the store grow. -/
theorem Effect.grows {state after : State σ} (h : Effect state after) :
    state.store.Grows after.store := by
  cases h with
  | nothing | sink => exact .refl state.store
  | heap hsize => exact .of_heap hsize
  | function function => exact .pushFunction state.store function

theorem Action.grows_of_run {α : Type} {action : Action σ α} {state after : State σ}
    {result : Except (RuntimeError σ) α} (h : action.run state = (result, after)) :
    state.store.Grows after.store :=
  (effect_of_run h).grows

end Script
