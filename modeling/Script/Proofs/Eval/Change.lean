/-
# What evaluation may change

Whatever an evaluation does to a state it does by actions and by entering and leaving
calls. A relation between a state and a later one that holds for these holds for every
evaluation of every plan and every tree, however it ends.
-/

import Script.Proofs.Eval.Run

namespace Script

variable {σ α β : Type}

/-- What holds of the state in which an evaluation ends, if it ends. -/
def Outcome.After (outcome : Outcome σ α) (property : State σ → Prop) : Prop :=
  match outcome with
  | .done _ state | .interrupted _ state => property state
  | .exhausted => True

theorem Outcome.After.imp {outcome : Outcome σ α} {property property' : State σ → Prop}
    (h : outcome.After property) (himp : ∀ {state}, property state → property' state) :
    outcome.After property' := by
  cases outcome with
  | done value state => exact himp h
  | interrupted interrupt state => exact himp h
  | exhausted => trivial

theorem Outcome.After.and {outcome : Outcome σ α} {property property' : State σ → Prop}
    (h : outcome.After property) (h' : outcome.After property') :
    outcome.After fun state => property state ∧ property' state := by
  cases outcome with
  | done value state => exact ⟨h, h'⟩
  | interrupted interrupt state => exact ⟨h, h'⟩
  | exhausted => trivial

theorem Outcome.After.forall {ι : Type} {outcome : Outcome σ α} {property : ι → State σ → Prop}
    (h : ∀ i, outcome.After (property i)) : outcome.After fun state => ∀ i, property i state := by
  cases outcome with
  | done value state => exact h
  | interrupted interrupt state => exact h
  | exhausted => trivial

/-- What holds under a condition that the end has no part in. -/
theorem Outcome.After.imp_of {outcome : Outcome σ α} {condition : Prop}
    {property : State σ → Prop} (h : condition → outcome.After property) :
    outcome.After fun state => condition → property state := by
  cases outcome with
  | done value state => exact h
  | interrupted interrupt state => exact h
  | exhausted => trivial

theorem Outcome.After.andThen {outcome : Outcome σ α} {next : α → State σ → Outcome σ β}
    {property property' : State σ → Prop} (h : outcome.After property)
    (himp : ∀ {state}, property state → property' state)
    (hnext : ∀ value middle, outcome = .done value middle → property middle →
      (next value middle).After property') : (outcome.andThen next).After property' := by
  cases outcome with
  | done value middle => exact hnext value middle rfl h
  | interrupted interrupt middle => exact himp h
  | exhausted => trivial

theorem Outcome.After.attempted {outcome : Outcome σ α} {property : State σ → Prop}
    (h : outcome.After property) : outcome.attempted.After property := by
  cases outcome with
  | done value state => exact h
  | interrupted interrupt state => cases interrupt <;> exact h
  | exhausted => trivial

theorem Outcome.After.popCall {outcome : Outcome σ α} {property property' : State σ → Prop}
    (h : outcome.After property) (himp : ∀ {state}, property state → property' state.popCall) :
    outcome.popCall.After property' := by
  cases outcome with
  | done value state => exact himp h
  | interrupted interrupt state => exact himp h
  | exhausted => trivial

theorem Outcome.After.ofAction {result : Except (RuntimeError σ) α × State σ}
    {property : State σ → Prop} (h : property result.2) : (ofAction result).After property := by
  obtain ⟨error | value, state⟩ := result
  · exact h
  · exact h

/-- A relation between a state and a later one that neither actions nor calls leave. -/
structure Respected (relation : State σ → State σ → Prop) : Prop where
  refl : ∀ state, relation state state
  trans : ∀ {first second third}, relation first second → relation second third →
    relation first third
  action : ∀ {α : Type} (action : Action σ α) (state : State σ),
    relation state (action.run state).2
  call : ∀ {call : Call σ} {state after : State σ}, relation (state.pushCall call) after →
    relation state after.popCall

namespace Respected

open Eval

variable {relation : State σ → State σ → Prop}

/-- A run of a plan respects the relation if the evaluations of its trees do. -/
theorem run (h : Respected relation) {evaluate : Evaluator σ}
    (hevaluate : ∀ tree scope state, (evaluate tree scope state).After (relation state))
    {α : Type} (rest : Eval σ α) :
    ∀ state, (rest.run evaluate state).After (relation state) := by
  induction rest with
  | give value => exact h.refl
  | leave exit => exact h.refl
  | exhausted => exact fun _ => trivial
  | perform action next ih =>
      intro state
      rw [run_perform]
      refine .andThen (.ofAction (h.action action state)) id fun result middle _ haction => ?_
      exact (ih result middle).imp (h.trans haction)
  | visiting tree scope next ih =>
      intro state
      rw [run_visiting]
      refine .andThen (hevaluate tree scope state) id fun value middle _ hvisit => ?_
      exact (ih value middle).imp (h.trans hvisit)
  | attempting body next ihBody ih =>
      intro state
      rw [run_attempting]
      refine .andThen (ihBody state).attempted id fun result middle _ hbody => ?_
      exact (ih result middle).imp (h.trans hbody)
  | calling call body next ihBody ih =>
      intro state
      obtain hfew | hdeep := Nat.lt_or_ge state.calls.length State.maxCalls
      · rw [run_calling call body next hfew]
        refine .andThen ((ihBody (state.pushCall call)).popCall h.call) id ?_
        intro value middle _ hbody
        exact (ih value middle).imp (h.trans hbody)
      · rw [run_calling_of_deep call body next hdeep]
        exact h.refl state

/-- Every evaluation of a tree respects the relation. -/
theorem evaluate (h : Respected relation) (budget : Nat) (tree : Tree σ) (scope : FrameId)
    (state : State σ) : (Eval.evaluate budget tree scope state).After (relation state) := by
  induction budget generalizing tree scope state with
  | zero => trivial
  | succ budget ih => exact h.run ih (step budget tree scope) state

theorem of_done {budget : Nat} {rest : Eval σ α} {state after : State σ} {value : α}
    (h : Respected relation) (hrun : rest.run (Eval.evaluate budget) state = .done value after) :
    relation state after := by
  have hafter := h.run (h.evaluate budget) rest state
  rwa [hrun] at hafter

theorem of_interrupted {budget : Nat} {rest : Eval σ α} {state after : State σ}
    {interrupt : Interrupt σ} (h : Respected relation)
    (hrun : rest.run (Eval.evaluate budget) state = .interrupted interrupt after) :
    relation state after := by
  have hafter := h.run (h.evaluate budget) rest state
  rwa [hrun] at hafter

end Respected

end Script
