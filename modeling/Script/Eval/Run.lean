/-
# Running evaluations

How an evaluation ends when it is run in a state: with a value, with an interrupt, or
not within its budget. An interrupt is an error or an early exit. The state is changed
in each of the first two cases; an interrupt undoes nothing.

A tree is evaluated with a budget that is one smaller for its parts, and each round of
a loop takes one from the loop's. A run that ends within some budget ends in the same
way within every larger one, so the budget only makes the definition total.
-/

import Script.Eval.Step

namespace Script

/-- What ends an evaluation before it has a value. -/
inductive Interrupt (σ : Type) where
  | error (error : RuntimeError σ)
  | exit (exit : Exit σ)

/-- How an evaluation ends. -/
inductive Outcome (σ α : Type) where
  | done (value : α) (state : State σ)
  | interrupted (interrupt : Interrupt σ) (state : State σ)
  /-- The budget was too small to reach an end. -/
  | exhausted

namespace Eval

variable {σ α : Type}

/-- How the evaluation of a tree in a frame ends. -/
abbrev Evaluator (σ : Type) := Tree σ → FrameId → State σ → Outcome σ Value

/-- Run an evaluation, given how the evaluations of trees end. -/
def run (evaluate : Evaluator σ) {α : Type} : Eval σ α → State σ → Outcome σ α
  | give value, state => .done value state
  | perform action next, state =>
    match action.run state with
    | (.ok result, state) => (next result).run evaluate state
    | (.error error, state) => .interrupted (.error error) state
  | visiting tree scope next, state =>
    match evaluate tree scope state with
    | .done value state => (next value).run evaluate state
    | .interrupted interrupt state => .interrupted interrupt state
    | .exhausted => .exhausted
  | attempting body next, state =>
    match body.run evaluate state with
    | .done value state => (next (.ok value)).run evaluate state
    | .interrupted (.exit exit) state => (next (.error exit)).run evaluate state
    | .interrupted (.error error) state => .interrupted (.error error) state
    | .exhausted => .exhausted
  | calling call body next, state =>
    if state.calls.length ≥ State.maxCalls then
      .interrupted (.error ⟨.tooDeep, call.site, state.calls⟩) state
    else
      match body.run evaluate (state.pushCall call) with
      | .done value state => (next value).run evaluate state.popCall
      | .interrupted interrupt state => .interrupted interrupt state.popCall
      | .exhausted => .exhausted
  | leave exit, state => .interrupted (.exit exit) state
  | exhausted, _ => .exhausted

/-- How the evaluation of a tree in a frame ends within a budget. -/
def evaluate : Nat → Evaluator σ
  | 0 => fun _ _ _ => .exhausted
  | budget + 1 => fun tree scope state => (step budget tree scope).run (evaluate budget) state

end Eval

end Script
