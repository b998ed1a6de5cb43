/-
# The results of calls

A call that gives a value called a function. If that was defined in a program, the value
is nil or one that the function's declared return type accepts, wherever it came from:
from the end of the body, from a return inside it, or from a body that is an expression.
-/

import Script.Proofs.Eval.Bind

namespace Script

/-- A value may be the result of a defined function. -/
def Closure.MayGive {σ : Type} (closure : Closure σ) (value : Value) : Prop :=
  value.isNil = true ∨ closure.returnType.accepts value = true

namespace Eval

variable {σ : Type} {site : σ} {name : String} {state after : State σ} {value : Value}

theorem mayGive_of_invoke {evaluate : Evaluator σ} {closure : Closure σ}
    {arguments : List Value}
    (h : (invoke site name closure arguments).run evaluate state = .done value after) :
    closure.MayGive value := by
  rw [invoke] at h
  obtain ⟨_, _, _, h⟩ := run_bind_eq_done_iff.mp h
  obtain ⟨_, _, _, h⟩ := run_bind_eq_done_iff.mp h
  obtain ⟨result, _, _, h⟩ := run_bind_eq_done_iff.mp h
  split at h
  · next hfits =>
    cases h
    exact (Bool.or_eq_true _ _).mp hfits
  · exact (run_raise_ne_done h).elim

/-- A call that gives a value called a function, and the value may be its result. -/
theorem exists_function_of_call {budget : Nat} {callee : Tree σ} {arguments : List (Tree σ)}
    {scope : FrameId}
    (h : evaluate (budget + 1) (.call site callee arguments) scope state = .done value after) :
    ∃ name id middle function,
      evaluate budget callee scope state = .done (.function name id) middle ∧
      after.function? id = some function ∧
      ∀ closure, function = .closure closure → closure.MayGive value := by
  change (call site callee arguments scope).run (evaluate budget) state = _ at h
  rw [call] at h
  obtain ⟨called, middle, hcallee, h⟩ := run_bind_eq_done_iff.mp h
  obtain ⟨given, ready, _, h⟩ := run_bind_eq_done_iff.mp h
  rw [run_visit] at hcallee
  cases called with
  | function name id =>
      obtain ⟨found, _, hfound, h⟩ := run_bind_eq_done_iff.mp h
      cases run_act_eq_done_iff.mp hfound
      split at h
      · exact (run_raise_ne_done h).elim
      · next function hfunction =>
        split at h
        · have hafter := (grows_of_run h).functions hfunction
          refine ⟨name, id, middle, function, hcallee, hafter, ?_⟩
          rintro closure rfl
          obtain ⟨_, inner, hinvoke, _⟩ := run_withCall_eq_done_iff.mp h
          exact mayGive_of_invoke hinvoke
        · exact (run_raise_ne_done h).elim
  | _ => exact (run_raise_ne_done h).elim

end Eval

end Script
