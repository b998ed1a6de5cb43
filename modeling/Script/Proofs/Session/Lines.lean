/-
# Sessions line by line

Running two sources one after another and running them as one, with a line feed in
between, cannot be told apart by what is seen of the second run: the value or the failure
without its places, the output and the global frame. What the runs leave behind differs
in the sites of functions that the first source defines, and these have no part in
evaluation. Nor has the value of the first source, if the second has a statement at all.
-/

import Script.Heap.Display
import Script.Proofs.Eval.Calls
import Script.Proofs.Eval.Shape
import Script.Proofs.Grammar.Lines
import Script.Proofs.Session.Answer
import Script.Proofs.Session.History
import Script.Value.Display

namespace Script

open Eval

variable {σ : Type}

/-! ## Statements in a row -/

namespace Eval

theorem last_append (scope : FrameId) (before : Value) (trees others : List (Tree σ)) :
    last scope before (trees ++ others) =
      last scope before trees >>= fun value => last scope value others := by
  induction trees generalizing before with
  | nil => rfl
  | cons tree trees ih => exact congrArg (visiting tree scope) (funext fun value => ih value)

variable {budget : Nat} {site site' : σ} {statements rest : List (Tree σ)} {statement : Tree σ}
  {state middle : State σ} {value : Value}

theorem calls_of_main {tree : Tree σ} (h : main budget tree state = .done value middle) :
    middle.calls = [] := by
  have hafter := respected_calls.evaluate budget tree State.globals { state with calls := [] }
  rw [main] at h
  rwa [h] at hafter

/-- Behind statements that gave a value, others run as a program of their own. -/
theorem main_block_append (h : main budget (.block site statements) state = .done value middle) :
    main budget (.block site (statements ++ statement :: rest)) state =
      main budget (.block site' (statement :: rest)) middle := by
  have hcalls : { middle with calls := [] } = middle := by rw [← calls_of_main h]
  cases budget with
  | zero => cases h
  | succ budget =>
      have hfirst : (last State.globals .nil statements).run (evaluate budget)
          { state with calls := [] } = .done value middle := h
      change (last State.globals .nil (statements ++ statement :: rest)).run (evaluate budget) _ =
        (last State.globals .nil (statement :: rest)).run (evaluate budget)
          { middle with calls := [] }
      rw [last_append, run_bind, hfirst, hcalls]
      rfl

/-- Programs of the same shape end in the same way, without sites. -/
theorem shape_main_eq {tree other : Tree σ} (h : tree.shape = other.shape) (budget : Nat)
    (state : State σ) :
    (main budget tree state).shape id = (main budget other state).shape id := by
  rw [main, main, ← evaluate_shape budget tree, ← evaluate_shape budget other, h]

end Eval

/-- The statements of a row. -/
def Tree.statements : Tree σ → List (Tree σ)
  | .block _ statements => statements
  | _ => []

/-- A source is a program with at least one statement. -/
def Source.HasStatement (source : Source) : Prop :=
  ∃ tree, Tree.ofSource source = .ok tree ∧ tree.statements.isEmpty = false

instance (source : Source) : Decidable source.HasStatement :=
  match hsource : Tree.ofSource source with
  | .ok tree =>
    decidable_of_iff (tree.statements.isEmpty = false)
      ⟨fun h => ⟨tree, hsource, h⟩,
        fun ⟨_, heq, h⟩ => by rw [hsource] at heq; cases heq; exact h⟩
  | .error _ => .isFalse fun ⟨_, heq, _⟩ => by rw [hsource] at heq; cases heq

theorem Source.HasStatement.exists_block {source : Source} (h : source.HasStatement) :
    ∃ site statement rest, Tree.ofSource source = .ok (.block site (statement :: rest)) := by
  obtain ⟨tree, hsource, hstatements⟩ := h
  obtain ⟨site, statements, rfl⟩ := Tree.eq_block_of_ofSource hsource
  cases statements with
  | nil => cases hstatements
  | cons statement rest => exact ⟨site, statement, rest, hsource⟩

/-! ## What is seen of a run -/

/-- A failure without its places: its category, its message and the contexts of its
traceback. -/
structure Gist where
  category : Category
  message : String
  contexts : List String

/-- A failure without its places. -/
def Failure.gist (failure : Failure) : Gist where
  category := failure.category
  message := failure.message
  contexts :=
    match failure with
    | .runtime error => error.traceback.map TraceLine.context
    | _ => []

/-- What is seen of a run: the type of the value and its two texts, or the failure without
its places; the output; and the global names in their order, each with its declared type
and the text of its value. -/
structure Observation where
  answer : Except Gist (TypeTag × String × String)
  output : Sink
  globals : List (String × TypeTag × String)

/-- What is seen of an answer with a heap and a sink. -/
def Observation.of (heap : Heap) (output : Sink) (answer : Except Gist Value) : Observation where
  answer := answer.map fun value => (value.tag, value.display heap, value.repr heap)
  output := output
  globals :=
    (heap.frame State.globals).bindings.map fun (name, binding) =>
      (name, binding.declared, binding.value.repr heap)

namespace Session

/-- What is seen of an answer in the session that the run left behind. -/
def observation (session : Session) (answer : Except Failure Value) : Observation :=
  .of session.heap session.state.sink (answer.mapError Failure.gist)

/-- A session answers to a source, and this is what is seen of it. -/
def Shows (session : Session) (source : Source) (seen : Observation) : Prop :=
  ∃ answer after, session.Answers source answer after ∧ after.observation answer = seen

end Session

/-! ## Sites are not seen -/

/-- An error without its places. -/
def RuntimeError.gist (error : RuntimeError σ) : Gist where
  category := error.fault.category
  message := error.fault.message
  contexts := "<program>" :: error.calls.reverse.map Call.name

theorem Failure.gist_runtime (error : RuntimeError Span) :
    (Failure.runtime error).gist = error.gist :=
  congrArg (Gist.mk _ _) error.context_traceback

section Translate

variable {τ : Type} (translation : Translation σ τ)

theorem RuntimeError.gist_translate (error : RuntimeError σ) :
    (error.translate translation).gist = error.gist := by
  refine congrArg (Gist.mk _ _) (congrArg ("<program>" :: ·) ?_)
  rw [translate, ← List.map_reverse, List.map_map]
  rfl

theorem Exit.stray_translate (exit : Exit σ) (calls : List (Call σ)) :
    (exit.translate translation).stray (calls.map (Call.translate translation)) =
      (exit.stray calls).translate translation := by
  cases exit <;> rfl

end Translate

/-- What is seen of how a program ends. -/
def Outcome.observation? : Outcome σ Value → Option Observation
  | .done value state => some (.of state.heap state.sink (.ok value))
  | .interrupted (.error error) state =>
    some (.of state.heap state.sink (.error error.gist))
  | .interrupted (.exit exit) state =>
    some (.of state.heap state.sink (.error (exit.stray state.calls).gist))
  | .exhausted => none

theorem Outcome.ne_exhausted_of_observation? {outcome : Outcome σ Value} {seen : Observation}
    (h : outcome.observation? = some seen) : outcome ≠ .exhausted := by
  rintro rfl
  cases h

/-- Of a translated outcome the same is seen. -/
theorem Outcome.observation?_translate {τ : Type} (translation : Translation σ τ)
    (outcome : Outcome σ Value) :
    (outcome.translate translation id).observation? = outcome.observation? := by
  cases outcome with
  | done value state => rfl
  | interrupted interrupt state =>
      cases interrupt with
      | error error =>
          rw [translate, Interrupt.translate, observation?, error.gist_translate]
          rfl
      | exit exit =>
          rw [translate, Interrupt.translate, observation?, State.translate, exit.stray_translate,
            RuntimeError.gist_translate]
          rfl
  | exhausted => rfl

theorem Outcome.observation?_shape (outcome : Outcome σ Value) :
    (outcome.shape id).observation? = outcome.observation? := by
  rw [← outcome.translate_bare, observation?_translate]

namespace Session

variable {session : Session} {source : Source} {tree : Tree Span}

theorem observation?_main (session : Session) (budget : Nat) (tree : Tree Span) :
    (main budget tree session.state).observation? =
      (session.runTree budget tree).map fun (answer, after) => after.observation answer := by
  rw [runTree, program]
  cases main budget tree session.state with
  | done value state => rfl
  | interrupted interrupt state =>
      cases interrupt with
      | error error =>
          rw [Outcome.observation?, ← Failure.gist_runtime]
          rfl
      | exit exit =>
          rw [Outcome.observation?, ← Failure.gist_runtime]
          rfl
  | exhausted => rfl

/-- A session ends the run of a program, and this is what is seen of it. -/
def ShowsTree (session : Session) (tree : Tree Span) (seen : Observation) : Prop :=
  ∃ answer after,
    (∃ budget, session.runTree budget tree = some (answer, after)) ∧
      after.observation answer = seen

/-- What is seen of a program is what is seen of how it ends. -/
theorem showsTree_iff {seen : Observation} :
    session.ShowsTree tree seen ↔
      ∃ budget, (main budget tree session.state).observation? = some seen := by
  constructor
  · rintro ⟨answer, after, ⟨budget, hanswer⟩, rfl⟩
    exact ⟨budget, by rw [observation?_main, hanswer]; rfl⟩
  · rintro ⟨budget, hseen⟩
    rw [observation?_main] at hseen
    obtain ⟨⟨answer, after⟩, hanswer, hsame⟩ := Option.map_eq_some_iff.mp hseen
    exact ⟨answer, after, ⟨budget, hanswer⟩, hsame⟩

/-- What is seen of a source is what is seen of how its program ends. -/
theorem shows_iff (h : Tree.ofSource source = .ok tree) {seen : Observation} :
    session.Shows source seen ↔
      ∃ budget, (main budget tree session.state).observation? = some seen := by
  have hrun (budget : Nat) : session.run budget source = session.runTree budget tree := by
    rw [run, h]
  rw [← showsTree_iff, Shows, ShowsTree]
  simp only [Answers, hrun]

/-- What is seen of a source does not depend on which of the sufficient budgets it is run
with. -/
theorem shows_iff_of_le (h : Tree.ofSource source = .ok tree) (least : Nat)
    {seen : Observation} :
    session.Shows source seen ↔
      ∃ budget, least ≤ budget ∧
        (main budget tree session.state).observation? = some seen := by
  rw [shows_iff h]
  constructor
  · rintro ⟨budget, hseen⟩
    have hend := Outcome.ne_exhausted_of_observation? hseen
    refine ⟨max least budget, Nat.le_max_left _ _, ?_⟩
    rw [main_eq_of_le (Nat.le_max_right least budget) hend]
    exact hseen
  · rintro ⟨budget, _, hseen⟩
    exact ⟨budget, hseen⟩

/-- A source to which a session answers with a value is a row of statements. -/
theorem exists_block_of_answers {value : Value} {middle : Session}
    (h : session.Answers source (.ok value) middle) :
    ∃ site statements budget, Tree.ofSource source = .ok (.block site statements) ∧
      main budget (.block site statements) session.state = .done value middle.state := by
  obtain ⟨budget, hrun⟩ := h
  obtain ⟨_, _, hanswer, _⟩ | ⟨tree, hsource, hrun⟩ := run_eq_some hrun
  · cases hanswer
  · obtain ⟨site, statements, rfl⟩ := Tree.eq_block_of_ofSource hsource
    obtain ⟨_, hmain, hanswer⟩ | ⟨_, _, hanswer⟩ | ⟨_, _, hanswer⟩ := runTree_eq_some hrun
    · cases hanswer
      exact ⟨site, statements, budget, hsource, hmain⟩
    · cases hanswer
    · cases hanswer

/-- Sessions line by line are one program. Where a session answers to a source with a value
and becomes another session, and a second source is a program with a statement, all is seen
of the second source in that other session that is seen, in the first session, of the two
sources as one with a line feed in between, and nothing else: the same value or the same
failure, the same output and the same global names, types and values. Neither ends if the
other does not. -/
theorem shows_lines_iff {session middle : Session} {first second file : String} {value : Value}
    (hfirst : session.Answers ⟨first, file⟩ (.ok value) middle)
    (hsecond : Source.HasStatement ⟨second, file⟩) (seen : Observation) :
    middle.Shows ⟨second, file⟩ seen ↔ session.Shows ⟨first ++ "\n" ++ second, file⟩ seen := by
  obtain ⟨site, statements, least, hsource, hmain⟩ := exists_block_of_answers hfirst
  obtain ⟨site', statement, rest, hsource'⟩ := hsecond.exists_block
  have htext : (Source.mk (first ++ "\n" ++ second) file).text.toList =
      (Source.mk first file).text.toList ++ '\n' :: (Source.mk second file).text.toList := by
    simp
  obtain ⟨tree, hlines, hshape⟩ := Tree.ofSource_lines htext hsource hsource'
  rw [shows_iff_of_le hsource' least, shows_iff_of_le hlines least]
  have hsame (budget : Nat) (hle : least ≤ budget) :
      (main budget tree session.state).observation? =
        (main budget (.block site' (statement :: rest)) middle.state).observation? := by
    have hdone : main budget (.block site statements) session.state =
        .done value middle.state := by
      rw [main_eq_of_le hle (by rw [hmain]; exact nofun)]
      exact hmain
    rw [← Outcome.observation?_shape, shape_main_eq hshape, Outcome.observation?_shape,
      main_block_append hdone]
  constructor
  · rintro ⟨budget, hle, hseen⟩
    exact ⟨budget, hle, (hsame budget hle).trans hseen⟩
  · rintro ⟨budget, hle, hseen⟩
    exact ⟨budget, hle, (hsame budget hle).symm.trans hseen⟩

/-- A function that divides, and a line that makes it divide by zero. -/
theorem shows_lines_iff_of_division :
    ∃ value middle,
      (Session.fresh none).Answers ⟨"int f(int n) = 1 / n", "lines"⟩ (.ok value) middle ∧
      Source.HasStatement ⟨"f(0)", "lines"⟩ ∧
      ∀ seen, middle.Shows ⟨"f(0)", "lines"⟩ seen ↔
        (Session.fresh none).Shows ⟨"int f(int n) = 1 / n" ++ "\n" ++ "f(0)", "lines"⟩ seen := by
  have hends : ((Session.fresh none).run 3 ⟨"int f(int n) = 1 / n", "lines"⟩).any
      (fun (answer, _) => answer.isOk) = true := by
    decide +kernel
  obtain ⟨⟨answer, middle⟩, hrun, hok⟩ := (Option.any_eq_true _ _).mp hends
  have hsecond : Source.HasStatement ⟨"f(0)", "lines"⟩ := by decide +kernel
  cases answer with
  | error failure => cases hok
  | ok value => exact ⟨value, middle, ⟨3, hrun⟩, hsecond, shows_lines_iff ⟨3, hrun⟩ hsecond⟩

end Session

end Script
