/-
# Larger budgets

A run that ends within some budget ends in the same way within every larger one. More of
the budget reaches two places: the evaluations of the trees that a plan visits, and the
rounds of a loop. A plan with more rounds goes on where the other is cut off, and is the
same everywhere else; this is the relation between plans that is proved here first.
-/

import Script.Proofs.Eval.Run

namespace Script

variable {σ α β : Type}

/-- An outcome that is still the outcome with more budget, unless the budget was used up. -/
def Outcome.Persists (outcome larger : Outcome σ α) : Prop :=
  outcome ≠ .exhausted → larger = outcome

namespace Outcome.Persists

variable {outcome larger : Outcome σ α}

theorem trans {largest : Outcome σ α} (h : outcome.Persists larger)
    (h' : larger.Persists largest) : outcome.Persists largest := by
  intro hend
  have heq := h hend
  exact (h' (heq ▸ hend)).trans heq

theorem andThen {next further : α → State σ → Outcome σ β} (h : outcome.Persists larger)
    (hnext : ∀ value middle, (next value middle).Persists (further value middle)) :
    (outcome.andThen next).Persists (larger.andThen further) := by
  intro hend
  cases outcome with
  | done value middle =>
      rw [h nofun]
      exact hnext value middle hend
  | interrupted interrupt middle =>
      rw [h nofun]
      rfl
  | exhausted => exact (hend rfl).elim

/-- What is made of an outcome persists if the outcome does. -/
theorem congr {change : Outcome σ α → Outcome σ β} (hchange : change .exhausted = .exhausted)
    (h : outcome.Persists larger) : (change outcome).Persists (change larger) := by
  intro hend
  cases outcome with
  | done value middle => rw [h nofun]
  | interrupted interrupt middle => rw [h nofun]
  | exhausted => exact (hend hchange).elim

end Outcome.Persists

namespace Eval

/-- A plan is another with something else in the places where that one is cut off. -/
inductive Prolongs : {α : Type} → Eval σ α → Eval σ α → Prop
  | exhausted {α : Type} {longer : Eval σ α} : Prolongs exhausted longer
  | give {α : Type} {value : α} : Prolongs (give value) (give value)
  | leave {α : Type} {exit : Exit σ} : Prolongs (leave exit : Eval σ α) (leave exit)
  | perform {α β : Type} {action : Action σ β} {next longer : β → Eval σ α} :
      (∀ result, Prolongs (next result) (longer result)) →
      Prolongs (perform action next) (perform action longer)
  | visiting {α : Type} {tree : Tree σ} {scope : FrameId} {next longer : Value → Eval σ α} :
      (∀ value, Prolongs (next value) (longer value)) →
      Prolongs (visiting tree scope next) (visiting tree scope longer)
  | attempting {α β : Type} {body longerBody : Eval σ β}
      {next longer : Except (Exit σ) β → Eval σ α} :
      Prolongs body longerBody → (∀ result, Prolongs (next result) (longer result)) →
      Prolongs (attempting body next) (attempting longerBody longer)
  | calling {α β : Type} {call : Call σ} {body longerBody : Eval σ β}
      {next longer : β → Eval σ α} :
      Prolongs body longerBody → (∀ value, Prolongs (next value) (longer value)) →
      Prolongs (calling call body next) (calling call longerBody longer)

namespace Prolongs

theorem refl (plan : Eval σ α) : Prolongs plan plan := by
  induction plan with
  | give value => exact .give
  | leave exit => exact .leave
  | exhausted => exact .exhausted
  | perform action next ih => exact .perform ih
  | visiting tree scope next ih => exact .visiting ih
  | attempting body next ihBody ih => exact .attempting ihBody ih
  | calling call body next ihBody ih => exact .calling ihBody ih

theorem bind {plan longer : Eval σ α} {continuation further : α → Eval σ β}
    (h : Prolongs plan longer) (hnext : ∀ value, Prolongs (continuation value) (further value)) :
    Prolongs (plan >>= continuation) (longer >>= further) := by
  change Prolongs (plan.bind continuation) (longer.bind further)
  induction h with
  | exhausted => exact .exhausted
  | give => exact hnext _
  | leave => exact .leave
  | perform _ ih => exact .perform fun result => ih result hnext
  | visiting _ ih => exact .visiting fun value => ih value hnext
  | attempting hbody _ _ ih => exact .attempting hbody fun result => ih result hnext
  | calling hbody _ _ ih => exact .calling hbody fun value => ih value hnext

/-- A loop with a larger bound has the same rounds and perhaps more. -/
theorem rounds {condition body : Tree σ} {scope : FrameId} {bound larger : Nat}
    (h : bound ≤ larger) (before : Value) :
    Prolongs (rounds condition body scope bound before)
      (Eval.rounds condition body scope larger before) := by
  induction bound generalizing larger before with
  | zero => exact .exhausted
  | succ bound ih =>
      obtain ⟨larger, rfl⟩ : ∃ smaller, larger = smaller + 1 := ⟨larger - 1, by omega⟩
      have hless : bound ≤ larger := Nat.le_of_succ_le_succ h
      refine .bind (.refl _) ?_
      intro value
      split
      · refine .attempting (.refl _) ?_
        intro result
        cases result with
        | ok value => exact ih hless value
        | error exit =>
            cases exit with
            | returned value site => exact .leave
            | breaking site => exact .give
            | continuing site => exact ih hless before
      · exact .refl _

theorem step {bound larger : Nat} (h : bound ≤ larger) (tree : Tree σ) (scope : FrameId) :
    Prolongs (step bound tree scope) (Eval.step larger tree scope) := by
  cases tree with
  | whileLoop site condition body => exact rounds h .nil
  | _ => exact .refl _

/-- A plan that goes further ends as the other does, if the trees that it visits do. -/
theorem run {evaluate larger : Evaluator σ} {plan longer : Eval σ α}
    (hevaluate : ∀ tree scope state,
      (evaluate tree scope state).Persists (larger tree scope state))
    (h : Prolongs plan longer) (state : State σ) :
    (plan.run evaluate state).Persists (longer.run larger state) := by
  induction h generalizing state with
  | exhausted => exact fun hend => (hend rfl).elim
  | give | leave => exact fun _ => rfl
  | perform _ ih =>
      rw [run_perform, run_perform]
      exact .andThen (fun _ => rfl) fun result middle => ih result middle
  | @visiting _ tree scope _ _ _ ih =>
      rw [run_visiting, run_visiting]
      exact .andThen (hevaluate tree scope state) fun value middle => ih value middle
  | attempting _ _ ihBody ih =>
      rw [run_attempting, run_attempting]
      exact .andThen (.congr rfl (ihBody state)) fun result middle => ih result middle
  | @calling _ _ call body longerBody next longer _ _ ihBody ih =>
      obtain hfew | hdeep := Nat.lt_or_ge state.calls.length State.maxCalls
      · rw [run_calling call body next hfew, run_calling call longerBody longer hfew]
        exact .andThen (.congr rfl (ihBody (state.pushCall call))) fun value middle =>
          ih value middle
      · rw [run_calling_of_deep call body next hdeep,
          run_calling_of_deep call longerBody longer hdeep]
        exact fun _ => rfl

end Prolongs

/-- An evaluation that ends within some budget ends in the same way within every larger
one. -/
theorem evaluate_persists {budget larger : Nat} (h : budget ≤ larger) (tree : Tree σ)
    (scope : FrameId) (state : State σ) :
    (evaluate budget tree scope state).Persists (evaluate larger tree scope state) := by
  induction budget generalizing larger tree scope state with
  | zero => exact fun hend => (hend rfl).elim
  | succ budget ih =>
      obtain ⟨larger, rfl⟩ : ∃ smaller, larger = smaller + 1 := ⟨larger - 1, by omega⟩
      have hless : budget ≤ larger := Nat.le_of_succ_le_succ h
      exact (Prolongs.step hless tree scope).run (ih hless) state

end Eval

end Script
