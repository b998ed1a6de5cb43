/-
# Running plans one after another

A plan that goes on from the value of another runs as the two do one after the other:
the second begins in the state in which the first ended, if it ended with a value.
-/

import Script.Proofs.Eval.Change
import Script.Proofs.Eval.Store

namespace Script

variable {σ α β : Type}

namespace Eval

variable {evaluate : Evaluator σ} {state after : State σ}

/-- Two plans in a row give a value if the first gives one and the second goes on from it
to the other. -/
theorem run_bind_eq_done_iff {plan : Eval σ α} {continuation : α → Eval σ β} {value : β} :
    (plan >>= continuation).run evaluate state = .done value after ↔
      ∃ between middle, plan.run evaluate state = .done between middle ∧
        (continuation between).run evaluate middle = .done value after := by
  rw [run_bind, Outcome.andThen_eq_done_iff]

theorem run_act_eq_done_iff {action : Action σ α} {value : α} :
    (act action).run evaluate state = .done value after ↔
      action.run state = (.ok value, after) := by
  rw [act, run]
  cases action.run state with
  | mk result middle => cases result <;> simp [run]

theorem run_raise_ne_done {fault : Fault} {site : σ} {value : α} :
    (raise fault site : Eval σ α).run evaluate state ≠ .done value after :=
  nofun

theorem run_withCall_eq_done_iff {call : Call σ} {body : Eval σ α} {value : α} :
    (withCall call body).run evaluate state = .done value after ↔
      state.calls.length < State.maxCalls ∧
        ∃ inner, body.run evaluate (state.pushCall call) = .done value inner ∧
          after = inner.popCall := by
  rw [withCall, run]
  split
  · next hdeep => simp [Nat.not_lt.mpr hdeep]
  · next hfew =>
    cases body.run evaluate (state.pushCall call) with
    | done between inner =>
        constructor
        · intro h
          cases h
          exact ⟨Nat.lt_of_not_ge hfew, inner, rfl, rfl⟩
        · rintro ⟨_, _, heq, rfl⟩
          cases heq
          rfl
    | interrupted interrupt inner => simp
    | exhausted => simp

end Eval

/-! ## Growth -/

theorem respected_grows :
    Respected fun state after : State σ => state.store.Grows after.store where
  refl state := .refl state.store
  trans := .trans
  action _ _ := Action.grows_of_run rfl
  call h := h

theorem grows_of_run {budget : Nat} {plan : Eval σ α} {state after : State σ} {value : α}
    (h : plan.run (Eval.evaluate budget) state = .done value after) :
    state.store.Grows after.store := by
  have hgrows := respected_grows.run (respected_grows.evaluate budget) plan state
  rwa [h] at hgrows

end Script
