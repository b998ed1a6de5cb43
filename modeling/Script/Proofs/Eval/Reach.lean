/-
# Every moment keeps a discipline

A discipline that is kept when a tree is visited is kept at every moment of its
evaluation, and what is left of the plan at that moment is safe. A call is begun only
by the plan of a call expression, at that expression's site.
-/

import Script.Proofs.Eval.Form
import Script.Proofs.Eval.Moment

namespace Script.Moment

open Eval

variable {σ : Type} {discipline : Discipline σ}

/-- A moment keeps a discipline: its store does, and what is left of its plan is safe. -/
def Keeps (discipline : Discipline σ) (moment : Moment σ) : Prop :=
  discipline.Kept moment.state.store ∧
    ∃ onExit onValue, moment.rest.Safe discipline moment.tree onExit moment.state.store onValue

theorem keeps_start {enclosure : Enclosure} {budget : Nat} {tree : Tree σ} {scope : FrameId}
    {state : State σ} (hkept : discipline.Kept state.store)
    (hobeys : tree.Obeys discipline.rules enclosure)
    (hscope : discipline.scope state.store scope) :
    (start budget tree scope state).Keeps discipline :=
  ⟨hkept, discipline.Exits enclosure, _, safe_visit hobeys hscope⟩

/-- So does the moment at which the evaluation of a tree begins. -/
theorem keeps_step {enclosure : Enclosure} {budget : Nat} {tree : Tree σ} {scope : FrameId}
    {context : Context σ} {state : State σ} (hkept : discipline.Kept state.store)
    (hobeys : tree.Obeys discipline.rules enclosure)
    (hscope : discipline.scope state.store scope) :
    Keeps discipline ⟨budget, tree, step budget tree scope, context, state⟩ :=
  ⟨hkept, discipline.Exits enclosure, _, safe_step hkept hscope hobeys⟩

section Runs

variable {α : Type} {budget : Nat} {rest : Eval σ α} {tree : Tree σ} {state after : State σ}
  {onExit : Exit σ → Store σ → Prop} {onValue : α → Store σ → Prop}

theorem keeps_run (hkept : discipline.Kept state.store)
    (h : rest.Safe discipline tree onExit state.store onValue) :
    (rest.run (evaluate budget) state).Keeps discipline state.store onExit onValue :=
  h.run (fun hkept hobeys hscope => discipline.evaluate budget hkept hobeys hscope) hkept

theorem kept_of_done {value : α} (hrun : rest.run (evaluate budget) state = .done value after)
    (hkept : discipline.Kept state.store)
    (h : rest.Safe discipline tree onExit state.store onValue) :
    discipline.Kept after.store ∧ onValue value after.store := by
  have hkeeps : (rest.run (evaluate budget) state).Keeps discipline _ _ _ := keeps_run hkept h
  rw [hrun] at hkeeps
  exact ⟨hkeeps.1, hkeeps.2.2⟩

theorem kept_of_exit {exit : Exit σ}
    (hrun : rest.run (evaluate budget) state = .interrupted (.exit exit) after)
    (hkept : discipline.Kept state.store)
    (h : rest.Safe discipline tree onExit state.store onValue) :
    discipline.Kept after.store ∧ onExit exit after.store := by
  have hkeeps : (rest.run (evaluate budget) state).Keeps discipline _ _ _ := keeps_run hkept h
  rw [hrun] at hkeeps
  exact ⟨hkeeps.1, hkeeps.2.2⟩

end Runs

/-- The moment to which another leads keeps the discipline if that one does. -/
theorem Leads.keeps {moment next : Moment σ} (h : Leads moment next)
    (hkeeps : moment.Keeps discipline) : next.Keeps discipline := by
  obtain ⟨hkept, onExit, onValue, hsafe⟩ := hkeeps
  cases h with
  | perform hresult =>
      obtain ⟨hafter, hyields⟩ := hkept.action hsafe.1 hresult
      have hgrows := Action.grows_of_run hresult
      exact ⟨hafter, onExit, onValue, hsafe.2 _ _ hafter hgrows hyields⟩
  | intoTree =>
      obtain ⟨hscope, enclosure, hobeys, _, _⟩ := hsafe
      exact keeps_step hkept hobeys hscope
  | @pastTree _ budget _ _ _ _ _ _ _ _ hdone =>
      obtain ⟨hscope, enclosure, hobeys, _, hnext⟩ := hsafe
      have hkeeps := discipline.evaluate budget hkept hobeys hscope
      rw [hdone] at hkeeps
      obtain ⟨hafter, hgrows, hvalue⟩ := hkeeps
      exact ⟨hafter, onExit, onValue, hnext _ _ hafter hgrows hvalue⟩
  | intoAttempt => exact ⟨hkept, _, _, hsafe⟩
  | pastAttempt hdone =>
      obtain ⟨hafter, hnext⟩ := kept_of_done hdone hkept hsafe
      exact ⟨hafter, onExit, onValue, hnext⟩
  | pastExit hexit =>
      obtain ⟨hafter, hnext⟩ := kept_of_exit hexit hkept hsafe
      exact ⟨hafter, onExit, onValue, hnext⟩
  | intoCall _ => exact ⟨hkept, _, _, hsafe.2.2⟩
  | pastCall _ hdone =>
      obtain ⟨hafter, hnext⟩ := kept_of_done hdone hkept hsafe.2.2
      exact ⟨hafter, onExit, onValue, hnext⟩

/-- Every moment that is reached keeps the discipline. -/
theorem Reaches.keeps {first moment : Moment σ} (h : first.Reaches moment)
    (hkeeps : first.Keeps discipline) : moment.Keeps discipline := by
  induction h with
  | refl => exact hkeeps
  | tail _ hleads ih => exact hleads.keeps ih

end Script.Moment
