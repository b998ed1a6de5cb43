/-
# Evaluation without sites

The shape of a state is what is left of it without the sites of its functions and calls,
and so are the shapes of errors, early exits and outcomes. Sites have no part in
evaluation: trees that have the same shape, evaluated in states that have the same shape,
end in the same way, with the same value, the same early exit or an error with the same
fault under calls of the same names, and with the same heap and sink.
-/

import Script.Proofs.Eval.Mirror

namespace Script

variable {σ α β : Type}

/-! ## Shapes -/

/-- A call without its site. -/
def Call.shape (call : Call σ) : Call Unit := ⟨call.name, ()⟩

/-- An error without sites. -/
def RuntimeError.shape (error : RuntimeError σ) : RuntimeError Unit :=
  ⟨error.fault, (), error.calls.map Call.shape⟩

/-- An early exit without its site. -/
def Exit.shape : Exit σ → Exit Unit
  | .returned value _ => .returned value ()
  | .breaking _ => .breaking ()
  | .continuing _ => .continuing ()

/-- What ends an evaluation, without sites. -/
def Interrupt.shape : Interrupt σ → Interrupt Unit
  | .error problem => .error problem.shape
  | .exit early => .exit early.shape

/-- A defined function without the sites of its body. -/
def Closure.shape (closure : Closure σ) : Closure Unit :=
  ⟨closure.parameters, closure.returnType, closure.givesBody, closure.body.shape, closure.scope⟩

/-- A function without sites. -/
def Function.shape : Function σ → Function Unit
  | .native function => .native function
  | .closure definition => .closure definition.shape

/-- A state without the sites of its functions and calls. -/
def State.shape (state : State σ) : State Unit :=
  ⟨state.heap, state.functions.map Function.shape, state.calls.map Call.shape, state.sink⟩

/-- How an evaluation ends, without sites, with another view of its value. -/
def Outcome.shape (view : α → β) : Outcome σ α → Outcome Unit β
  | .done value state => .done (view value) state.shape
  | .interrupted interrupt state => .interrupted interrupt.shape state.shape
  | .exhausted => .exhausted

/-! ## Leaving sites out -/

theorem Exit.translate_bare (exit : Exit σ) : exit.translate .bare = exit.shape := by
  cases exit <;> rfl

theorem Interrupt.translate_bare (interrupt : Interrupt σ) :
    interrupt.translate .bare = interrupt.shape := by
  cases interrupt with
  | error error => rfl
  | exit exit => exact congrArg Interrupt.exit exit.translate_bare

theorem Function.translate_bare (function : Function σ) :
    function.translate .bare = function.shape := by
  cases function with
  | native native => rfl
  | closure closure =>
      have hbody := closure.body.translate_bare
      exact congrArg (fun body => Function.closure
        ⟨closure.parameters, closure.returnType, closure.givesBody, body, closure.scope⟩) hbody

theorem State.translate_bare (state : State σ) : state.translate .bare = state.shape := by
  rw [translate, shape, funext Function.translate_bare]
  rfl

theorem Outcome.translate_bare (view : α → β) (outcome : Outcome σ α) :
    outcome.translate .bare view = outcome.shape view := by
  cases outcome with
  | done value state => exact congrArg (Outcome.done _) state.translate_bare
  | interrupted interrupt state =>
      rw [translate, shape, interrupt.translate_bare, state.translate_bare]
  | exhausted => rfl

namespace Eval

/-- Trees that are evaluated within a budget, with their sites and without them. -/
def withoutSites (σ : Type) (budget : Nat) :
    Mirroring (.bare : Translation σ Unit) where
  comparison := .same
  evaluate := Eval.evaluate budget
  mirrored := Eval.evaluate budget

theorem mirrorsTrees_withoutSites (budget : Nat) :
    MirrorsTrees (withoutSites σ budget) := by
  induction budget with
  | zero => exact fun _ _ _ => rfl
  | succ budget ih =>
      intro tree scope state
      have hresult : MirrorsResults (withoutSites σ budget) := fun closure scope =>
        mirrors_result rfl (mirrors_visit ih closure.body scope)
      exact mirrors_step ih hresult budget tree scope state

/-- A tree without sites, evaluated in a state without sites, ends as the tree does in the
state, without sites. -/
theorem evaluate_shape (budget : Nat) (tree : Tree σ) (scope : FrameId) (state : State σ) :
    evaluate budget tree.shape scope state.shape =
      (evaluate budget tree scope state).shape id := by
  rw [← Outcome.translate_bare, ← tree.translate_bare, ← state.translate_bare]
  exact (mirrorsTrees_withoutSites budget tree scope state).symm

end Eval

end Script
