/-
# Sessions without loops

A session in which no program has a loop always answers, be it with a value or with a
failure. The functions that earlier programs left behind have no loops either, wherever
they are kept and however they call each other.
-/

import Script.Proofs.Eval.Termination
import Script.Proofs.Session.Answer
import Script.Proofs.Session.History

namespace Script

open Eval

/-- The bodies of all functions are without loops. -/
def State.Loopless {σ : Type} (state : State σ) : Prop :=
  ∀ {id : FunctionId} {closure : Closure σ},
    state.function? id = some (.closure closure) → closure.body.Loopless

/-- A source is not a program that has a loop. -/
def Source.Loopless (source : Source) : Prop :=
  ∀ tree, Tree.ofSource source = .ok tree → tree.Loopless

instance (source : Source) : Decidable source.Loopless :=
  match hsource : Tree.ofSource source with
  | .ok tree =>
    decidable_of_iff tree.Loopless
      ⟨fun h _ heq => by rw [hsource] at heq; cases heq; exact h, fun h => h tree hsource⟩
  | .error _ => .isTrue fun _ heq => by rw [hsource] at heq; cases heq

/-- With enough of a budget, a program without loops ends, and it leaves behind functions
without loops. -/
theorem Eval.exists_main_ends {σ : Type} {tree : Tree σ} {state : State σ}
    (htree : tree.Loopless) (hstate : state.Loopless) :
    ∃ size budget, (main budget tree state).Ends size [] := by
  obtain ⟨size, hsize, hfits⟩ := State.exists_fits hstate (sizeOf tree)
  refine ⟨size, State.maxCalls * (size + 1) + sizeOf tree + 1, ?_⟩
  have hstart : State.Fits size { state with calls := [] } := hfits
  exact ends_of_fits ⟨htree, hsize⟩ hstart (Nat.zero_le _) (Nat.lt_succ_self _)

theorem Outcome.Ends.ne_exhausted {σ α : Type} {outcome : Outcome σ α} {size : Nat}
    {calls : List (Call σ)} (h : outcome.Ends size calls) : outcome ≠ .exhausted := by
  rintro rfl
  exact h

namespace Session

variable {session after : Session} {budget : Nat} {tree : Tree Span} {source : Source}
  {answer : Except Failure Value}

/-- A program without loops leaves behind functions without loops. -/
theorem loopless_of_runTree (htree : tree.Loopless) (hsession : session.state.Loopless)
    (hrun : session.runTree budget tree = some (answer, after)) : after.state.Loopless := by
  obtain ⟨size, enough, hends⟩ := exists_main_ends htree hsession
  have hsame : main budget tree session.state ≠ .exhausted →
      main enough tree session.state = main budget tree session.state := by
    intro hend
    rw [← main_eq_of_le (Nat.le_max_left budget enough) hend,
      main_eq_of_le (Nat.le_max_right budget enough) hends.ne_exhausted]
  obtain ⟨_, hend, _⟩ | ⟨_, hend, _⟩ | ⟨_, hend, _⟩ := runTree_eq_some hrun
  all_goals
    rw [hend] at hsame
    rw [hsame nofun] at hends
    intro id closure hclosure
    exact (hends.1 hclosure).loopless

/-- In a session in which no program had a loop no function has one. -/
theorem loopless_of_runsOnly (h : session.RunsOnly Tree.Loopless) : session.state.Loopless := by
  induction h with
  | fresh limit =>
      intro id closure hclosure
      rw [State.function?] at hclosure
      exact (State.getElem?_functions_initial_ne_closure hclosure).elim
  | runTree _ htree hrun ih => exact loopless_of_runTree htree ih hrun
  | takeOutput _ ih => exact ih

/-- A session without loops answers to a source without loops. -/
theorem exists_answers (hsession : session.state.Loopless)
    (hsource : source.Loopless) :
    ∃ answer after, session.Answers source answer after := by
  cases htree : Tree.ofSource source with
  | error failure =>
      refine ⟨.error failure, session, 0, ?_⟩
      rw [run, htree]
  | ok tree =>
      obtain ⟨size, budget, hends⟩ := exists_main_ends (hsource tree htree) hsession
      have hrun : session.run budget source = session.runTree budget tree := by
        rw [run, htree]
      cases hmain : main budget tree session.state with
      | done value state =>
          refine ⟨.ok value, ⟨state⟩, budget, ?_⟩
          rw [hrun, runTree, program, hmain]
      | interrupted interrupt state =>
          cases interrupt with
          | error error =>
              refine ⟨.error (.runtime error), ⟨state⟩, budget, ?_⟩
              rw [hrun, runTree, program, hmain]
          | exit exit =>
              refine ⟨.error (.runtime (exit.stray state.calls)), ⟨state⟩, budget, ?_⟩
              rw [hrun, runTree, program, hmain]
      | exhausted => exact (hends.ne_exhausted hmain).elim

/-- Programs without loops always end: a session in which no program had a loop answers to
all sources of programs without loops, run in it one after another. -/
theorem answersEach_of_loopless {session : Session} (hsession : session.RunsOnly Tree.Loopless)
    {sources : List Source} (hsources : ∀ source ∈ sources, source.Loopless) :
    ∃ answers after, session.AnswersEach sources answers after := by
  induction sources generalizing session with
  | nil => exact ⟨[], session, .nil⟩
  | cons source sources ih =>
      rw [List.forall_mem_cons] at hsources
      obtain ⟨answer, middle, hanswers⟩ :=
        exists_answers (loopless_of_runsOnly hsession) hsources.1
      obtain ⟨budget, hrun⟩ := id hanswers
      obtain ⟨answers, after, hrest⟩ := ih (hsession.run hsources.1 hrun) hsources.2
      exact ⟨answer :: answers, after, .cons hanswers hrest⟩

/-- A function that calls itself forever, and a namespace that is printed and has itself as
a member. -/
def endlessSources : List Source :=
  [⟨"int f(int n) = f(n + 1)\nf(0)", "first"⟩,
    ⟨"namespace a \x7b\x7d\na.b = a\nprintln(a)", "second"⟩]

theorem answersEach_of_endlessSources :
    ∃ answers after, (Session.fresh none).AnswersEach endlessSources answers after :=
  answersEach_of_loopless (.fresh none) (by decide +kernel)

end Session

end Script
