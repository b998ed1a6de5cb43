/-
# Errors end everything

An error that arises at a moment of an evaluation ends the evaluation: no loop, call,
namespace or operator around the moment takes the error for a result, and none does
anything more to the heap, the functions or the sink. So there is at most one moment at
which an error arises, and an evaluation with a value or an early exit has none.
-/

import Script.Proofs.Eval.Action
import Script.Proofs.Eval.Moment

namespace Script

variable {σ α β : Type}

/-- Two states that differ at most in the calls that are active. -/
structure State.SameButCalls (state after : State σ) : Prop where
  heap : after.heap = state.heap
  functions : after.functions = state.functions
  sink : after.sink = state.sink

/-- An outcome that is an error, after which nothing but the end of calls has happened. -/
def Outcome.FailsAt (outcome : Outcome σ α) (error : RuntimeError σ) (state : State σ) : Prop :=
  ∃ after, outcome = .interrupted (.error error) after ∧ state.SameButCalls after

namespace Outcome.FailsAt

variable {outcome : Outcome σ α} {error : RuntimeError σ} {state : State σ}

theorem andThen (h : outcome.FailsAt error state) (next : α → State σ → Outcome σ β) :
    (outcome.andThen next).FailsAt error state := by
  obtain ⟨after, rfl, hsame⟩ := h
  exact ⟨after, rfl, hsame⟩

theorem attempted (h : outcome.FailsAt error state) : outcome.attempted.FailsAt error state := by
  obtain ⟨after, rfl, hsame⟩ := h
  exact ⟨after, rfl, hsame⟩

theorem popCall (h : outcome.FailsAt error state) : outcome.popCall.FailsAt error state := by
  obtain ⟨after, rfl, hsame⟩ := h
  exact ⟨after.popCall, rfl, hsame.heap, hsame.functions, hsame.sink⟩

end Outcome.FailsAt

namespace Moment

open Eval

variable {first moment other next : Moment σ} {error : RuntimeError σ}

/-- How the evaluation from a moment on ends, as far as its innermost plan goes. -/
abbrev outcome (moment : Moment σ) : Outcome σ moment.α :=
  moment.rest.run (evaluate moment.budget) moment.state

theorem Raises.failsAt (h : moment.Raises error) :
    moment.outcome.FailsAt error moment.state := by
  cases h with
  | action hrun =>
      rw [outcome, run_perform, hrun, (Action.run_eq_error hrun).1]
      exact ⟨_, rfl, rfl, rfl, rfl⟩
  | @tooDeep _ _ _ _ _ _ call body next hdeep =>
      rw [outcome, run_calling_of_deep call body next hdeep]
      exact ⟨_, rfl, rfl, rfl, rfl⟩

/-- An evaluation that leads to a moment from which it fails fails. -/
theorem Leads.failsAt {state : State σ} (h : Leads moment next)
    (hfails : next.outcome.FailsAt error state) : moment.outcome.FailsAt error state := by
  cases h with
  | perform hresult =>
      rw [outcome, run_perform, hresult]
      exact hfails
  | intoTree =>
      rw [outcome, run_visiting]
      exact hfails.andThen _
  | pastTree hdone =>
      rw [outcome, run_visiting, hdone]
      exact hfails
  | intoAttempt =>
      rw [outcome, run_attempting]
      exact hfails.attempted.andThen _
  | pastAttempt hdone =>
      rw [outcome, run_attempting, hdone]
      exact hfails
  | pastExit hexit =>
      rw [outcome, run_attempting, hexit]
      exact hfails
  | intoCall hfew =>
      rw [outcome, run_calling _ _ _ hfew]
      exact hfails.popCall.andThen _
  | pastCall hfew hdone =>
      rw [outcome, run_calling _ _ _ hfew, hdone]
      exact hfails

/-- An evaluation in which an error arises ends with that error, and with the heap, the
functions and the sink of the moment at which it arose. -/
theorem Reaches.failsAt (h : first.Reaches moment) (hraises : moment.Raises error) :
    first.outcome.FailsAt error moment.state := by
  induction h using Relation.ReflTransGen.head_induction_on with
  | refl => exact hraises.failsAt
  | head hleads _ ih => exact hleads.failsAt ih

/-- A moment at which an error arises leads to no other. -/
theorem Raises.not_leads (h : moment.Raises error) : ¬ Leads moment next := by
  intro hleads
  cases h with
  | action hrun =>
      cases hleads with
      | perform hresult =>
          rw [hrun] at hresult
          cases hresult
  | tooDeep hdeep =>
      cases hleads with
      | intoCall hfew => exact Nat.not_le.mpr hfew hdeep
      | pastCall hfew _ => exact Nat.not_le.mpr hfew hdeep

/-- Only one of the moments to which a moment leads can be on the way to an error. -/
theorem Leads.unique {state state' : State σ} {error' : RuntimeError σ} (h : Leads moment next)
    (h' : Leads moment other) (hfails : next.outcome.FailsAt error state)
    (hfails' : other.outcome.FailsAt error' state') : next = other := by
  obtain ⟨after, hafter, -⟩ := hfails
  obtain ⟨after', hafter', -⟩ := hfails'
  cases h with
  | perform hresult =>
      cases h' with
      | perform hresult' =>
          rw [hresult] at hresult'
          cases hresult'
          rfl
  | intoTree =>
      cases h' with
      | intoTree => rfl
      | pastTree hdone => cases hafter.symm.trans hdone
  | pastTree hdone =>
      cases h' with
      | intoTree => cases hafter'.symm.trans hdone
      | pastTree hdone' =>
          cases hdone.symm.trans hdone'
          rfl
  | intoAttempt =>
      cases h' with
      | intoAttempt => rfl
      | pastAttempt hdone => cases hafter.symm.trans hdone
      | pastExit hexit => cases hafter.symm.trans hexit
  | pastAttempt hdone =>
      cases h' with
      | intoAttempt => cases hafter'.symm.trans hdone
      | pastAttempt hdone' =>
          cases hdone.symm.trans hdone'
          rfl
      | pastExit hexit => cases hdone.symm.trans hexit
  | pastExit hexit =>
      cases h' with
      | intoAttempt => cases hafter'.symm.trans hexit
      | pastAttempt hdone => cases hexit.symm.trans hdone
      | pastExit hexit' =>
          cases hexit.symm.trans hexit'
          rfl
  | intoCall hfew =>
      cases h' with
      | intoCall => rfl
      | pastCall _ hdone => cases hafter.symm.trans hdone
  | pastCall hfew hdone =>
      cases h' with
      | intoCall => cases hafter'.symm.trans hdone
      | pastCall _ hdone' =>
          cases hdone.symm.trans hdone'
          rfl

/-- At most at one moment of an evaluation an error arises. -/
theorem Raises.unique {error' : RuntimeError σ} (hraises : moment.Raises error)
    (hraises' : other.Raises error') (h : first.Reaches moment) (h' : first.Reaches other) :
    moment = other := by
  induction h using Relation.ReflTransGen.head_induction_on with
  | refl =>
      obtain rfl | ⟨next, hleads, -⟩ := h'.cases_head
      · rfl
      · exact (hraises.not_leads hleads).elim
  | head hleads hreaches ih =>
      obtain rfl | ⟨next, hleads', hreaches'⟩ := h'.cases_head
      · exact (hraises'.not_leads hleads).elim
      · have heq : _ = next := hleads.unique hleads' (Reaches.failsAt hreaches hraises)
          (Reaches.failsAt hreaches' hraises')
        exact ih (heq ▸ hreaches')

end Moment

end Script
