/-
# Sessions and their histories

A session comes about from a fresh one by running programs of some kind, one after
another, and by taking what they printed. A discipline that holds of a fresh session
and whose rules all of these programs obey is kept throughout, at every moment of every
run and between the runs.
-/

import Script.Proofs.Eval.Reach
import Script.Session

namespace Script

open Eval

/-- The functions that a session begins with. -/
theorem State.functions_initial {σ : Type} (limit : Option Nat) :
    (State.initial limit : State σ).functions = (Native.all.map Function.native).toArray := rfl

/-- No function that a session begins with has a body. -/
theorem State.getElem?_functions_initial_ne_closure {σ : Type} {limit : Option Nat} {index : Nat}
    {closure : Closure σ} :
    (State.initial limit : State σ).functions[index]? ≠ some (.closure closure) := by
  intro hclosure
  rw [State.functions_initial, List.getElem?_toArray, List.getElem?_map] at hclosure
  obtain ⟨native, _, hnative⟩ := Option.map_eq_some_iff.mp hclosure
  cases hnative

/-- A session in which only programs of some kind were run. A program that fails is one
of them, and what it did before it failed stays. -/
inductive Session.RunsOnly (admits : Tree Span → Prop) : Session → Prop
  | fresh (limit : Option Nat) : RunsOnly admits (.fresh limit)
  | runTree {session after : Session} {budget : Nat} {tree : Tree Span}
      {answer : Except Failure Value} :
      RunsOnly admits session → admits tree →
      session.runTree budget tree = some (answer, after) → RunsOnly admits after
  | takeOutput {session : Session} :
      RunsOnly admits session → RunsOnly admits session.takeOutput.2

/-- A session in which any programs were run. -/
abbrev Session.Reachable : Session → Prop := Session.RunsOnly fun _ => True

namespace Session

variable {admits : Tree Span → Prop} {session after : Session} {budget : Nat}
  {tree : Tree Span} {source : Source} {answer : Except Failure Value}

/-- A source that cannot be read leaves a session as it is, and any other is run as the
program that it is. -/
theorem run_eq_some (h : session.run budget source = some (answer, after)) :
    (∃ failure, Tree.ofSource source = .error failure ∧ answer = .error failure ∧
      after = session) ∨
    ∃ tree, Tree.ofSource source = .ok tree ∧
      session.runTree budget tree = some (answer, after) := by
  rw [run] at h
  split at h
  · next hsource =>
    cases h
    exact .inl ⟨_, hsource, rfl, rfl⟩
  · next tree hsource => exact .inr ⟨tree, hsource, h⟩

/-- An error at run time is that of the program that a source is. -/
theorem run_eq_runtime {error : RuntimeError Span}
    (h : session.run budget source = some (.error (.runtime error), after)) :
    ∃ tree, Tree.ofSource source = .ok tree ∧
      session.runTree budget tree = some (.error (.runtime error), after) := by
  obtain ⟨failure, hsource, hfailure, _⟩ | hrun := run_eq_some h
  · cases hfailure
    rw [Tree.ofSource] at hsource
    split at hsource
    · cases hsource
    · split at hsource
      · cases hsource
      · cases hsource
  · exact hrun

theorem RunsOnly.run (hsession : session.RunsOnly admits)
    (hadmits : ∀ tree, Tree.ofSource source = .ok tree → admits tree)
    (h : session.run budget source = some (answer, after)) : after.RunsOnly admits := by
  obtain ⟨_, _, _, rfl⟩ | ⟨tree, hsource, hrun⟩ := run_eq_some h
  · exact hsession
  · exact hsession.runTree (hadmits tree hsource) hrun

/-- How a program ends tells what a session answers and becomes. -/
theorem runTree_eq_some (h : session.runTree budget tree = some (answer, after)) :
    (∃ value, main budget tree session.state = .done value after.state ∧
      answer = .ok value) ∨
    (∃ error, main budget tree session.state = .interrupted (.error error) after.state ∧
      answer = .error (.runtime error)) ∨
    ∃ exit, main budget tree session.state = .interrupted (.exit exit) after.state ∧
      answer = .error (.runtime (exit.stray after.state.calls)) := by
  rw [runTree, program] at h
  cases hmain : main budget tree session.state with
  | done value state =>
      rw [hmain] at h
      cases h
      exact .inl ⟨value, rfl, rfl⟩
  | interrupted interrupt state =>
      cases interrupt with
      | error error =>
          rw [hmain] at h
          cases h
          exact .inr (.inl ⟨error, rfl, rfl⟩)
      | exit exit =>
          rw [hmain] at h
          cases h
          exact .inr (.inr ⟨exit, rfl, rfl⟩)
  | exhausted =>
      rw [hmain] at h
      cases h

/-! ## Disciplines in sessions -/

/-- A discipline that holds of a fresh session, and lets programs run in its global
frame. -/
structure Begins (discipline : Discipline Span) : Prop where
  kept : ∀ limit, discipline.Kept (State.initial limit).store
  globals : ∀ limit, discipline.scope (State.initial limit).store State.globals

/-- No function has a body in the beginning, so any rules can be asked for. -/
theorem begins_ofRules (rules : Rules Span) : Begins (.ofRules rules) where
  kept limit := by
    refine ⟨trivial, fun {id closure} hclosure => ?_⟩
    simp only [Store.function?, State.store] at hclosure
    exact (State.getElem?_functions_initial_ne_closure hclosure).elim
  globals _ := trivial

variable {discipline : Discipline Span}

/-- How a program ends in a session that keeps a discipline. -/
theorem keeps_main (hkept : discipline.Kept session.state.store)
    (hglobals : discipline.scope session.state.store State.globals)
    (hobeys : tree.Obeys discipline.rules .program) :
    (main budget tree session.state).Keeps discipline session.state.store
      (discipline.Exits .program) fun value after => discipline.value after value := by
  have hstart : discipline.Kept { session.state with calls := [] }.store := hkept
  exact discipline.evaluate budget hstart hobeys hglobals

/-- A run keeps the discipline, and its errors are those of the discipline or early exits
that nothing ended. -/
theorem kept_runTree (hkept : discipline.Kept session.state.store)
    (hglobals : discipline.scope session.state.store State.globals)
    (hobeys : tree.Obeys discipline.rules .program)
    (h : session.runTree budget tree = some (answer, after)) :
    discipline.Kept after.state.store ∧ session.state.store.Grows after.state.store := by
  have hmain : (main budget tree session.state).Keeps discipline _ _ _ :=
    keeps_main hkept hglobals hobeys
  obtain ⟨_, hend, _⟩ | ⟨_, hend, _⟩ | ⟨_, hend, _⟩ := runTree_eq_some h
  all_goals
    rw [hend] at hmain
    exact ⟨hmain.1, hmain.2.1⟩

/-- A discipline is kept in every session that comes about by programs that obey it. -/
theorem RunsOnly.kept (hbegins : Begins discipline)
    (hadmits : ∀ tree, admits tree → tree.Obeys discipline.rules .program)
    (h : session.RunsOnly admits) :
    discipline.Kept session.state.store ∧
      discipline.scope session.state.store State.globals := by
  induction h with
  | fresh limit => exact ⟨hbegins.kept limit, hbegins.globals limit⟩
  | @runTree _ _ _ tree _ _ htree hrun ih =>
      obtain ⟨hkept, hgrows⟩ := kept_runTree ih.1 ih.2 (hadmits tree htree) hrun
      exact ⟨hkept, discipline.scope_mono hgrows ih.2⟩
  | takeOutput _ ih => exact ih

end Session

end Script
