/-
# Answers of sessions

A session answers to a source if running the source ends within some budget. It ends in
the same way within every larger one, so there is at most one answer, and at most one
session that the session becomes.
-/

import Script.Proofs.Eval.Budget
import Script.Session

namespace Script.Session

open Eval

variable {session after after' : Session} {budget larger : Nat} {source : Source}
  {answer answer' : Except Failure Value}

/-- What a session answers to a source, and what it becomes. -/
def Answers (session : Session) (source : Source) (answer : Except Failure Value)
    (after : Session) : Prop :=
  ∃ budget, session.run budget source = some (answer, after)

/-- What a session answers to sources one after another, and what it becomes. -/
inductive AnswersEach :
    Session → List Source → List (Except Failure Value) → Session → Prop
  | nil {session : Session} : AnswersEach session [] [] session
  | cons {session middle after : Session} {source : Source} {sources : List Source}
      {answer : Except Failure Value} {answers : List (Except Failure Value)} :
      session.Answers source answer middle → AnswersEach middle sources answers after →
      AnswersEach session (source :: sources) (answer :: answers) after

/-- A program that ends within some budget ends in the same way within every larger one. -/
theorem main_eq_of_le {tree : Tree Span} {state : State Span} (h : budget ≤ larger)
    (hend : main budget tree state ≠ .exhausted) :
    main larger tree state = main budget tree state :=
  evaluate_persists h tree State.globals _ hend

theorem runTree_of_le {tree : Tree Span} (h : budget ≤ larger)
    (hrun : session.runTree budget tree = some (answer, after)) :
    session.runTree larger tree = some (answer, after) := by
  have hend : main budget tree session.state ≠ .exhausted := by
    intro hexhausted
    rw [runTree, program, hexhausted] at hrun
    cases hrun
  rw [runTree, program, main_eq_of_le h hend]
  exact hrun

theorem run_of_le (h : budget ≤ larger)
    (hrun : session.run budget source = some (answer, after)) :
    session.run larger source = some (answer, after) := by
  rw [run] at hrun ⊢
  split at hrun
  · exact hrun
  · exact runTree_of_le h hrun

/-- There is only one answer to a source. -/
theorem Answers.unique (h : session.Answers source answer after)
    (h' : session.Answers source answer' after') : answer = answer' ∧ after = after' := by
  obtain ⟨budget, hrun⟩ := h
  obtain ⟨budget', hrun'⟩ := h'
  have hlarger := run_of_le (Nat.le_max_left budget budget') hrun
  rw [run_of_le (Nat.le_max_right budget budget') hrun'] at hlarger
  cases hlarger
  exact ⟨rfl, rfl⟩

end Script.Session
