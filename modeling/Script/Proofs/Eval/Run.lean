/-
# Runs by their parts

A plan runs as its first request does, and then as what is left of it does from the state
in which the request ended. An action ends with a result or an error. A body whose early
exits are taken as results ends with a result where it would end with an early exit. A
body with one more call active ends with that call taken off.
-/

import Script.Eval.Run

namespace Script

variable {σ α β γ : Type}

namespace Outcome

/-- How an action ends. -/
def ofAction : Except (RuntimeError σ) α × State σ → Outcome σ α
  | (.ok value, state) => .done value state
  | (.error error, state) => .interrupted (.error error) state

/-- Go on from a value and the state in which it was given. -/
def andThen (outcome : Outcome σ α) (next : α → State σ → Outcome σ β) : Outcome σ β :=
  match outcome with
  | .done value state => next value state
  | .interrupted interrupt state => .interrupted interrupt state
  | .exhausted => .exhausted

/-- Take an early exit as a result. -/
def attempted : Outcome σ α → Outcome σ (Except (Exit σ) α)
  | .done value state => .done (.ok value) state
  | .interrupted (.exit exit) state => .done (.error exit) state
  | .interrupted (.error error) state => .interrupted (.error error) state
  | .exhausted => .exhausted

/-- Take the innermost call off. -/
def popCall : Outcome σ α → Outcome σ α
  | .done value state => .done value state.popCall
  | .interrupted interrupt state => .interrupted interrupt state.popCall
  | .exhausted => .exhausted

variable {outcome : Outcome σ α} {interrupt : Interrupt σ} {state after : State σ}

theorem andThen_assoc (outcome : Outcome σ α) (next : α → State σ → Outcome σ β)
    (further : β → State σ → Outcome σ γ) :
    (outcome.andThen next).andThen further =
      outcome.andThen fun value middle => (next value middle).andThen further := by
  cases outcome with
  | done value middle => rfl
  | interrupted interrupt middle => rfl
  | exhausted => rfl

theorem andThen_eq_done_iff {next : α → State σ → Outcome σ β} {value : β} :
    outcome.andThen next = .done value after ↔
      ∃ between middle, outcome = .done between middle ∧
        next between middle = .done value after := by
  cases outcome with
  | done between middle =>
      constructor
      · intro h
        exact ⟨between, middle, rfl, h⟩
      · rintro ⟨_, _, heq, h⟩
        cases heq
        exact h
  | interrupted interrupt state => simp [andThen]
  | exhausted => simp [andThen]

theorem eq_interrupted_of_andThen {next : α → State σ → Outcome σ β}
    (h : outcome.andThen next = .interrupted interrupt after) :
    outcome = .interrupted interrupt after ∨
      ∃ value middle, outcome = .done value middle ∧
        next value middle = .interrupted interrupt after := by
  cases outcome with
  | done value middle => exact .inr ⟨value, middle, rfl, h⟩
  | interrupted interrupt middle =>
      cases h
      exact .inl rfl
  | exhausted => cases h

theorem eq_of_ofAction_eq_done {result : Except (RuntimeError σ) α × State σ} {value : α}
    (h : ofAction result = .done value after) : result = (.ok value, after) := by
  obtain ⟨error | value, state⟩ := result
  · cases h
  · cases h
    rfl

theorem eq_of_ofAction_eq_error {result : Except (RuntimeError σ) α × State σ}
    {error : RuntimeError σ} (h : ofAction result = .interrupted (.error error) after) :
    result = (.error error, after) := by
  obtain ⟨error | value, state⟩ := result
  · cases h
    rfl
  · cases h

theorem eq_of_attempted_eq_ok {value : α} (h : outcome.attempted = .done (.ok value) after) :
    outcome = .done value after := by
  cases outcome with
  | done value state =>
      cases h
      rfl
  | interrupted interrupt state => cases interrupt <;> cases h
  | exhausted => cases h

theorem eq_of_attempted_eq_exit {exit : Exit σ}
    (h : outcome.attempted = .done (.error exit) after) :
    outcome = .interrupted (.exit exit) after := by
  cases outcome with
  | done value state => cases h
  | interrupted interrupt state =>
      cases interrupt with
      | error error => cases h
      | exit exit =>
          cases h
          rfl
  | exhausted => cases h

theorem eq_of_attempted_eq_interrupted (h : outcome.attempted = .interrupted interrupt after) :
    outcome = .interrupted interrupt after := by
  cases outcome with
  | done value state => cases h
  | interrupted interrupt state =>
      cases interrupt with
      | error error =>
          cases h
          rfl
      | exit exit => cases h
  | exhausted => cases h

theorem exists_of_popCall_eq_done {value : α} (h : outcome.popCall = .done value after) :
    ∃ middle, outcome = .done value middle ∧ middle.popCall = after := by
  cases outcome with
  | done value state =>
      cases h
      exact ⟨state, rfl, rfl⟩
  | interrupted interrupt state => cases h
  | exhausted => cases h

theorem exists_of_popCall_eq_interrupted (h : outcome.popCall = .interrupted interrupt after) :
    ∃ middle, outcome = .interrupted interrupt middle ∧ middle.popCall = after := by
  cases outcome with
  | done value state => cases h
  | interrupted interrupt state =>
      cases h
      exact ⟨state, rfl, rfl⟩
  | exhausted => cases h

end Outcome

namespace Eval

variable {evaluate : Evaluator σ} {state : State σ}

attribute [local simp] run

theorem run_perform (action : Action σ β) (next : β → Eval σ α) :
    (perform action next).run evaluate state =
      (Outcome.ofAction (action.run state)).andThen fun result middle =>
        (next result).run evaluate middle := by
  rw [run]
  obtain ⟨error | result, middle⟩ := action.run state
  · rfl
  · rfl

theorem run_visiting (tree : Tree σ) (scope : FrameId) (next : Value → Eval σ α) :
    (visiting tree scope next).run evaluate state =
      (evaluate tree scope state).andThen fun value middle =>
        (next value).run evaluate middle := by
  rw [run]
  cases evaluate tree scope state with
  | done value middle => rfl
  | interrupted interrupt middle => rfl
  | exhausted => rfl

theorem run_attempting (body : Eval σ β) (next : Except (Exit σ) β → Eval σ α) :
    (attempting body next).run evaluate state =
      (body.run evaluate state).attempted.andThen fun result middle =>
        (next result).run evaluate middle := by
  rw [run]
  cases body.run evaluate state with
  | done value middle => rfl
  | interrupted interrupt middle =>
      cases interrupt with
      | error error => rfl
      | exit exit => rfl
  | exhausted => rfl

theorem run_calling_of_deep (call : Call σ) (body : Eval σ β) (next : β → Eval σ α)
    (h : State.maxCalls ≤ state.calls.length) :
    (calling call body next).run evaluate state =
      .interrupted (.error ⟨.tooDeep, call.site, state.calls⟩) state := by
  rw [run, if_pos h]

theorem run_calling (call : Call σ) (body : Eval σ β) (next : β → Eval σ α)
    (h : state.calls.length < State.maxCalls) :
    (calling call body next).run evaluate state =
      (body.run evaluate (state.pushCall call)).popCall.andThen fun value middle =>
        (next value).run evaluate middle := by
  rw [run, if_neg (Nat.not_le.mpr h)]
  cases body.run evaluate (state.pushCall call) with
  | done value middle => rfl
  | interrupted interrupt middle => rfl
  | exhausted => rfl

theorem run_bind (plan : Eval σ α) (continuation : α → Eval σ β) (state : State σ) :
    (plan >>= continuation).run evaluate state =
      (plan.run evaluate state).andThen fun value middle =>
        (continuation value).run evaluate middle := by
  change (plan.bind continuation).run evaluate state = _
  induction plan generalizing state with
  | give value => rfl
  | leave exit => rfl
  | exhausted => rfl
  | perform action next ih =>
      rw [Eval.bind, run_perform, run_perform, Outcome.andThen_assoc]
      simp only [ih]
  | visiting tree scope next ih =>
      rw [Eval.bind, run_visiting, run_visiting, Outcome.andThen_assoc]
      simp only [ih]
  | attempting body next _ ih =>
      rw [Eval.bind, run_attempting, run_attempting, Outcome.andThen_assoc]
      simp only [ih]
  | calling call body next _ ih =>
      rw [Eval.bind]
      obtain hfew | hdeep := Nat.lt_or_ge state.calls.length State.maxCalls
      · rw [run_calling call body _ hfew, run_calling call body _ hfew, Outcome.andThen_assoc]
        simp only [ih]
      · rw [run_calling_of_deep call body _ hdeep, run_calling_of_deep call body _ hdeep]
        rfl

theorem run_visit (tree : Tree σ) (scope : FrameId) (state : State σ) :
    (visit tree scope).run evaluate state = evaluate tree scope state := by
  rw [visit, run]
  cases evaluate tree scope state <;> rfl

theorem run_act (action : Action σ α) (state : State σ) :
    (act action).run evaluate state = .ofAction (action.run state) := by
  rw [act, run]
  obtain ⟨error | result, middle⟩ := action.run state
  · rfl
  · rfl

theorem run_attempt (body : Eval σ α) (state : State σ) :
    (attempt body).run evaluate state = (body.run evaluate state).attempted := by
  rw [attempt, run_attempting]
  cases (body.run evaluate state).attempted <;> rfl

theorem run_withCall (call : Call σ) (body : Eval σ α)
    (h : state.calls.length < State.maxCalls) :
    (withCall call body).run evaluate state =
      (body.run evaluate (state.pushCall call)).popCall := by
  rw [withCall, run_calling call body give h]
  cases (body.run evaluate (state.pushCall call)).popCall <;> rfl

end Eval

end Script
