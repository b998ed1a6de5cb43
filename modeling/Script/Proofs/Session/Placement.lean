/-
# Early exits that are never stray

In a program each of whose early exits lies inside what ends it, none is ever stray. A
function may be called far from its definition, in another program even, so this is a
property of sessions: the bodies of all functions that were made so far are placed as
well as the programs that made them.
-/

import Script.Proofs.Session.History

namespace Script

open Eval

variable {σ : Type}

/-- The rules that ask for early exits to lie inside what ends them. -/
def Rules.placed : Rules σ := ⟨fun _ => True, True⟩

/-- A program in which each break and continue lies in the body of a loop, with no
function's definition in between, and each return in the body of a function. -/
def Tree.WellPlaced (tree : Tree σ) : Prop := tree.Obeys .placed .program

/-- The discipline of early exits: the bodies of functions are well placed. -/
def Discipline.placed : Discipline σ := .ofRules .placed

/-- Nothing leaves a well placed program. -/
theorem not_exits_program {exit : Exit σ} {store : Store σ} :
    ¬ Discipline.placed.Exits .program exit store := by
  intro h
  cases exit with
  | returned value site => exact Bool.false_ne_true (h.2.1 trivial)
  | breaking site | continuing site => exact Bool.false_ne_true (h.2 trivial)

namespace Session

variable {session after : Session} {budget : Nat} {tree : Tree Span} {source : Source}
  {error : RuntimeError Span}

theorem isStray_of_runTree (hsession : session.RunsOnly Tree.WellPlaced)
    (htree : tree.WellPlaced)
    (hrun : session.runTree budget tree = some (.error (.runtime error), after)) :
    error.fault.isStray = false := by
  obtain ⟨hkept, hglobals⟩ := hsession.kept (begins_ofRules .placed) fun _ hplaced => hplaced
  have hmain : (main budget tree session.state).Keeps Discipline.placed _ _ _ :=
    keeps_main hkept hglobals htree
  obtain ⟨_, _, hanswer⟩ | ⟨_, hend, hanswer⟩ | ⟨_, hend, _⟩ := runTree_eq_some hrun
  · cases hanswer
  · cases hanswer
    rw [hend] at hmain
    exact hmain.2.2.notStray trivial
  · rw [hend] at hmain
    exact (not_exits_program hmain.2.2).elim

/-- Where all programs of a session are well placed, no run fails because of a stray
return, break or continue, be it the run of a tree or of a source. -/
theorem not_stray_of_wellPlaced {session after : Session} {budget : Nat}
    {error : RuntimeError Span} (hsession : session.RunsOnly Tree.WellPlaced) :
    (∀ tree : Tree Span, tree.WellPlaced →
      session.runTree budget tree = some (.error (.runtime error), after) →
      error.fault ≠ .strayReturn ∧ error.fault ≠ .strayBreak ∧
        error.fault ≠ .strayContinue) ∧
    ∀ source : Source, (∀ tree, Tree.ofSource source = .ok tree → tree.WellPlaced) →
      session.run budget source = some (.error (.runtime error), after) →
      error.fault ≠ .strayReturn ∧ error.fault ≠ .strayBreak ∧
        error.fault ≠ .strayContinue := by
  have hrunTree (tree : Tree Span) (htree : tree.WellPlaced)
      (hrun : session.runTree budget tree = some (.error (.runtime error), after)) :
      error.fault ≠ .strayReturn ∧ error.fault ≠ .strayBreak ∧
        error.fault ≠ .strayContinue := by
    have hstray := isStray_of_runTree hsession htree hrun
    refine ⟨?_, ?_, ?_⟩
    all_goals
      intro hfault
      rw [hfault] at hstray
      cases hstray
  refine ⟨hrunTree, ?_⟩
  intro source hsource hrun
  obtain ⟨tree, htree, hrun⟩ := run_eq_runtime hrun
  exact hrunTree tree (hsource tree htree) hrun

/-- A loop that ends at once, and a call of a function that fails when it would return. -/
def placedProgram : Tree Span :=
  .block default [
    .whileLoop default (.number default (.int 1)) (.breakLoop default),
    .call default (.functionDef default "int" "f" [] false (.returnValue default
      (.binary default .divide (.number default (.int 1)) (.number default (.int 0))))) []]

theorem wellPlaced_placedProgram : placedProgram.WellPlaced := by
  simp [placedProgram, Tree.WellPlaced, Tree.Obeys, Tree.ObeyEach, Rules.placed,
    Rules.MayReturn, Rules.MayLeaveLoop, Enclosure.loop, Enclosure.function]

theorem not_stray_of_placedProgram :
    (Session.fresh none).RunsOnly Tree.WellPlaced ∧ placedProgram.WellPlaced ∧
    ∃ error after,
      (Session.fresh none).runTree 6 placedProgram =
        some (.error (.runtime error), after) ∧
      error.fault ≠ .strayReturn ∧ error.fault ≠ .strayBreak ∧
        error.fault ≠ .strayContinue := by
  have hsession : (Session.fresh none).RunsOnly Tree.WellPlaced := .fresh none
  obtain ⟨error, after, hrun⟩ : ∃ error after, (Session.fresh none).runTree 6 placedProgram =
      some (.error (.runtime error), after) := ⟨_, _, rfl⟩
  refine ⟨hsession, wellPlaced_placedProgram, error, after, hrun, ?_⟩
  exact (not_stray_of_wellPlaced hsession).1 placedProgram wellPlaced_placedProgram hrun

end Session

end Script
