/-
# The stack of calls

Every evaluation leaves the stack of calls as it found it, and in between the stack
holds exactly the calls that enclose the moment, each at the site of its call
expression and by the name of the function that the callee gave. The body of a function
is visited only inside such a call. The stack never holds more than the allowed number.
So the traceback of an error, which is made of the stack, tells which calls enclosed the
moment at which the error arose and where each of them was made.
-/

import Script.Proofs.Eval.Course
import Script.Session

namespace Script

open Eval

variable {σ : Type}

/-! ## Balance -/

theorem respected_calls :
    Respected fun state after : State σ => after.calls = state.calls where
  refl _ := rfl
  trans h h' := h'.trans h
  action _ _ := Action.calls_of_run rfl
  call h := congrArg List.tail h

namespace Moment

/-- The stack of calls is that of the calls that enclose the moment, and it is not too
high. -/
structure Balanced (moment : Moment σ) : Prop where
  calls : moment.state.calls = moment.context.active.map ActiveCall.call
  called : ∀ call ∈ moment.context.active, call.Called
  bounded : moment.context.active.length ≤ State.maxCalls

/-- The moment to which another leads is balanced if that one is. -/
theorem Leads.balanced {moment next : Moment σ} (h : Leads moment next)
    (hkeeps : moment.Keeps (.ofRules .free)) (hturn : moment.InTurn)
    (hbalanced : moment.Balanced) : next.Balanced := by
  obtain ⟨hcalls, hcalled, hbounded⟩ := hbalanced
  obtain ⟨hactive, hsame⟩ | henters := h.respects_or_enters respected_calls
  · exact ⟨hsame.trans (hactive ▸ hcalls), hactive ▸ hcalled, hactive ▸ hbounded⟩
  · cases henters with
    | @intro _ _ _ _ context state call _ _ hfew =>
        obtain ⟨_, ⟨callee, arguments, id, values, rfl, hgiven, hlength, _⟩, _⟩ :=
          hturn.beginsCall hkeeps ⟨_, rfl⟩
        let inner : ActiveCall σ := ⟨.call call.site callee arguments, context.given⟩
        have hname : inner.name = call.name := ActiveCall.name_eq hgiven
        have hcall : inner.call = call := by rw [ActiveCall.call, hname, Tree.site]
        refine ⟨?_, ?_, ?_⟩
        · change call :: state.calls = inner.call :: context.active.map ActiveCall.call
          rw [hcall, hcalls]
        · refine List.forall_mem_cons.mpr ⟨?_, hcalled⟩
          exact ⟨call.site, callee, arguments, call.name, id, values, rfl, hgiven, hlength⟩
        · rw [hcalls, List.length_map] at hfew
          exact hfew

/-- Every moment of a run is balanced. -/
theorem Reaches.balanced {first moment : Moment σ} (h : first.Reaches moment)
    (hkeeps : first.Keeps (.ofRules .free)) (hturn : first.InTurn)
    (hbalanced : first.Balanced) : moment.Balanced := by
  induction h with
  | refl => exact hbalanced
  | tail hreaches hleads ih =>
      exact hleads.balanced (Reaches.keeps hreaches hkeeps) (Reaches.inTurn hreaches hkeeps hturn)
        ih

/-- The moment before a program runs. -/
def ofProgram (budget : Nat) (tree : Tree σ) (state : State σ) : Moment σ :=
  start budget tree State.globals { state with calls := [] }

theorem kept_free (store : Store σ) : (Discipline.ofRules .free).Kept store :=
  ⟨trivial, fun _ => Tree.obeys_free .function _⟩

section OfProgram

variable {budget : Nat} {tree : Tree σ} {state : State σ} {moment : Moment σ}

theorem keeps_free_ofProgram : (ofProgram budget tree state).Keeps (.ofRules .free) :=
  keeps_start (kept_free _) (tree.obeys_free .program) trivial

theorem inTurn_of_ofProgram (h : (ofProgram budget tree state).Reaches moment) :
    moment.InTurn :=
  Reaches.inTurn h keeps_free_ofProgram (inTurn_start _ _ _ _)

theorem balanced_of_ofProgram (h : (ofProgram budget tree state).Reaches moment) :
    moment.Balanced :=
  Reaches.balanced h keeps_free_ofProgram (inTurn_start _ _ _ _)
    ⟨rfl, List.forall_mem_nil _, Nat.zero_le _⟩

end OfProgram

/-- An error carries the stack of the moment at which it arose. -/
theorem Raises.calls {moment : Moment σ} {error : RuntimeError σ} (h : moment.Raises error) :
    error.calls = moment.state.calls := by
  cases h with
  | action hrun => exact (Action.run_eq_error hrun).2.1
  | tooDeep _ => rfl

end Moment

/-! ## Tracebacks -/

/-- Where an error of a program arose, and under which calls: at a moment of its
evaluation, or behind it, where an early exit had left everything. -/
inductive ArisesUnder (budget : Nat) (tree : Tree σ) (state : State σ) :
    RuntimeError σ → List (ActiveCall σ) → Prop
  | inside {moment : Moment σ} {error : RuntimeError σ} :
      (Moment.ofProgram budget tree state).Reaches moment → moment.Raises error →
      ArisesUnder budget tree state error moment.context.active
  | behind {exit : Exit σ} {after : State σ} :
      main budget tree state = .interrupted (.exit exit) after →
      ArisesUnder budget tree state (exit.stray after.calls) []

theorem ArisesUnder.called {budget : Nat} {tree : Tree σ} {state : State σ}
    {error : RuntimeError σ} {active : List (ActiveCall σ)}
    (h : ArisesUnder budget tree state error active) : ∀ call ∈ active, call.Called := by
  cases h with
  | inside hreaches _ => exact (Moment.balanced_of_ofProgram hreaches).called
  | behind _ => exact List.forall_mem_nil _

theorem Exit.calls_stray (exit : Exit σ) (calls : List (Call σ)) :
    (exit.stray calls).calls = calls := by
  cases exit <;> rfl

theorem ArisesUnder.calls {budget : Nat} {tree : Tree σ} {state : State σ}
    {error : RuntimeError σ} {active : List (ActiveCall σ)}
    (h : ArisesUnder budget tree state error active) :
    error.calls = active.map ActiveCall.call := by
  cases h with
  | inside hreaches hraises =>
      rw [hraises.calls, (Moment.balanced_of_ofProgram hreaches).calls]
  | @behind exit after hexit =>
      have hafter := respected_calls.evaluate budget tree State.globals { state with calls := [] }
      rw [Eval.main] at hexit
      rw [hexit] at hafter
      exact (exit.calls_stray after.calls).trans hafter

/-- Every error of a program arose somewhere under some calls. -/
theorem exists_arisesUnder {budget : Nat} {tree : Tree σ} {state after : State σ}
    {error : RuntimeError σ} (h : program budget tree state = some (.error error, after)) :
    ∃ active, ArisesUnder budget tree state error active := by
  rw [program] at h
  split at h
  · cases h
  · next herror =>
    cases h
    obtain ⟨moment, hreaches, hraises⟩ := Moment.exists_raises_of_evaluate herror
    exact ⟨moment.context.active, .inside hreaches hraises⟩
  · next hexit =>
    cases h
    exact ⟨[], .behind hexit⟩
  · cases h

theorem program_of_runTree {session after : Session} {budget : Nat} {tree : Tree Span}
    {error : RuntimeError Span}
    (h : session.runTree budget tree = some (.error (.runtime error), after)) :
    program budget tree session.state = some (.error error, after.state) := by
  rw [Session.runTree] at h
  split at h
  · cases h
  · next hprogram =>
    cases h
    exact hprogram
  · cases h

/-- A line of a traceback: what encloses a place, and where the place begins. -/
def TraceLine.within (context : String) (place : Span) : TraceLine :=
  ⟨place.source.file, place.line, context⟩

/-- The lines of a traceback, the outermost first: the program and the calls, each with
the place in it where the next call is made, and for the innermost the place of the
error. -/
theorem RuntimeError.traceback_eq_zipWith (error : RuntimeError Span) :
    error.traceback = List.zipWith TraceLine.within
      ("<program>" :: error.calls.reverse.map Call.name)
      (error.calls.reverse.map Call.site ++ [error.site]) := by
  obtain ⟨fault, site, calls⟩ := error
  change (traceFrom site calls).reverse = _
  induction calls generalizing site with
  | nil => rfl
  | cons call calls ih =>
      rw [traceFrom, List.reverse_cons, ih, List.reverse_cons, List.map_append, List.map_append,
        ← List.cons_append, List.zipWith_append (by simp)]
      rfl

theorem RuntimeError.context_traceback (error : RuntimeError Span) :
    error.traceback.map TraceLine.context = "<program>" :: error.calls.reverse.map Call.name := by
  have hcontexts (place : Span) (calls : List (Call Span)) :
      (traceFrom place calls).map TraceLine.context = calls.map Call.name ++ ["<program>"] := by
    induction calls generalizing place with
    | nil => rfl
    | cons call calls ih => exact congrArg (call.name :: ·) (ih call.site)
  rw [traceback, List.map_reverse, hcontexts, List.reverse_append, List.map_reverse]
  rfl

/-- The stack of calls is balanced and not too high, and tracebacks tell the truth.
Whatever a tree does, its evaluation ends with the calls that were active before. At
every moment of a program the stack holds the calls that enclose the moment, at most
the allowed number: of each call expression its site and the name of the function that
its callee gave. A call begins only at a call expression, to invoke the closure that its
callee gave; only a tree is visited whose turn it is, and the body of a function only
where the innermost call is the one that it was given to. An error that arose under some
calls has a traceback with one line more than there are calls; the lines are the program
and the functions that are called from the outside, each but the last with the place
where the call expression of the next begins, and the last with the place where the
error's span begins. -/
theorem calls_balanced_and_traceback_truthful :
    (∀ (budget : Nat) (tree : Tree Span) (scope : FrameId) (state : State Span),
      (evaluate budget tree scope state).After fun after => after.calls = state.calls) ∧
    (∀ (budget : Nat) (tree : Tree Span) (state : State Span) (moment : Moment Span),
      (Moment.ofProgram budget tree state).Reaches moment →
      moment.Balanced ∧ moment.state.calls.length ≤ 1000 ∧
      (∀ {β : Type} (call : Call Span) (body : Eval Span β), moment.Calls call body →
        ∃ closure, moment.BeginsCall call body closure) ∧
      ∀ (visited : Tree Span) (scope : FrameId), moment.Visits visited scope →
        (moment.tree.turn moment.context.values).Permits visited ∧
        ∀ callee, moment.tree.turn moment.context.values = .function callee →
          moment.InsideCall callee visited) ∧
    ∀ (session after : Session) (budget : Nat) (tree : Tree Span) (error : RuntimeError Span),
      session.runTree budget tree = some (.error (.runtime error), after) →
      ∃ active, ArisesUnder budget tree session.state error active ∧
        (∀ call ∈ active, call.Called) ∧
        error.traceback.length = active.length + 1 ∧
        error.traceback = List.zipWith TraceLine.within
          ("<program>" :: active.reverse.map ActiveCall.name)
          (active.reverse.map (·.expression.site) ++ [error.site]) := by
  refine ⟨respected_calls.evaluate, ?_, ?_⟩
  · intro budget tree state moment hreaches
    have hbalanced := Moment.balanced_of_ofProgram hreaches
    have hturn := Moment.inTurn_of_ofProgram hreaches
    refine ⟨hbalanced, ?_, fun call body hcalls => ?_, fun visited scope hvisits => ?_⟩
    · rw [hbalanced.calls, List.length_map]
      exact hbalanced.bounded
    · have hkeeps := Moment.Reaches.keeps hreaches Moment.keeps_free_ofProgram
      obtain ⟨closure, hbegins, _⟩ := hturn.beginsCall hkeeps hcalls
      exact ⟨closure, hbegins⟩
    · exact ⟨hturn.permits hvisits, fun callee => hturn.insideCall hvisits⟩
  · intro session after budget tree error hrun
    obtain ⟨active, harises⟩ := exists_arisesUnder (program_of_runTree hrun)
    have htraceback := error.traceback_eq_zipWith
    rw [harises.calls, ← List.map_reverse, List.map_map, List.map_map] at htraceback
    refine ⟨active, harises, harises.called, ?_, htraceback⟩
    rw [htraceback]
    simp

/-- A function that divides by zero, another one that calls it, and a call of that one. -/
def callsOfDivision : Source :=
  ⟨"void inner() \x7b\n    println(1 / 0)\n\x7d\nvoid outer() = inner()\nouter()", "calls"⟩

/-- The lines of the traceback that an error has, with the fault. -/
def Failure.told? : Except Failure Value → Option (Fault × List (String × Nat))
  | .error (.runtime error) =>
    some (error.fault, error.traceback.map fun line => (line.context, line.line))
  | _ => none

/-- The error of the division arises inside the calls of both functions, and its traceback
has a line for each of them. -/
theorem calls_balanced_and_traceback_truthful_of_division :
    ∃ tree error after active, Tree.ofSource callsOfDivision = .ok tree ∧
      (Session.fresh none).runTree 12 tree = some (.error (.runtime error), after) ∧
      error.fault = .operation .divisionByZero ∧
      ArisesUnder 12 tree (Session.fresh none).state error active ∧
      (∀ call ∈ active, call.Called) ∧ active.map ActiveCall.name = ["inner", "outer"] ∧
      error.traceback.map (fun line => (line.context, line.line)) =
        [("<program>", 5), ("outer", 4), ("inner", 2)] := by
  have hends : (Tree.ofSource callsOfDivision).toOption.bind (fun tree =>
      ((Session.fresh none).runTree 12 tree).bind fun (answer, _) => Failure.told? answer) =
        some (.operation .divisionByZero, [("<program>", 5), ("outer", 4), ("inner", 2)]) := by
    decide +kernel
  obtain ⟨_, _, hruns⟩ := calls_balanced_and_traceback_truthful
  cases htree : Tree.ofSource callsOfDivision with
  | error failure =>
      rw [htree] at hends
      cases hends
  | ok tree =>
      rw [htree, Except.toOption, Option.bind_some] at hends
      obtain ⟨⟨answer, after⟩, hrun, htold⟩ := Option.bind_eq_some_iff.mp hends
      obtain ⟨error, rfl⟩ : ∃ error, answer = .error (.runtime error) := by
        cases answer with
        | ok value => cases htold
        | error failure =>
            cases failure with
            | runtime error => exact ⟨error, rfl⟩
            | lexical error | grammatical error => cases htold
      obtain ⟨hfault, hlines⟩ := Prod.mk.inj (Option.some.inj htold)
      obtain ⟨active, harises, hcalled, -, -⟩ := hruns _ _ _ _ _ hrun
      refine ⟨tree, error, after, active, rfl, hrun, hfault, harises, hcalled, ?_, hlines⟩
      have hcontexts := congrArg (List.map Prod.fst) hlines
      rw [List.map_map] at hcontexts
      have hnames := error.context_traceback.symm.trans hcontexts
      rw [harises.calls, List.map_reverse, List.map_map, List.map_cons, List.cons.injEq,
        List.reverse_eq_iff] at hnames
      exact hnames.2

end Script
