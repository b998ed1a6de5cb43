/-
# Sinks without a limit

Where a sink refuses no text, an evaluation does what it would do with a sink without a
limit, at every moment. So each moment of an evaluation is one of the evaluation without a
limit too, and the two part only at a moment at which a text is refused. What is printed is
never taken back.
-/

import Script.Proofs.Eval.Ending

namespace Script

variable {σ α β : Type}

/-- The same sink without a limit. -/
def Sink.unlimited (sink : Sink) : Sink := { sink with limit := none }

/-- The same state with a sink without a limit. -/
def State.unlimited (state : State σ) : State σ := { state with sink := state.sink.unlimited }

/-- The same outcome with a sink without a limit. -/
def Outcome.unlimited : Outcome σ α → Outcome σ α
  | .done value state => .done value state.unlimited
  | .interrupted interrupt state => .interrupted interrupt state.unlimited
  | .exhausted => .exhausted

/-- The same moment with a sink without a limit. -/
def Moment.unlimited (moment : Moment σ) : Moment σ :=
  { moment with state := moment.state.unlimited }

/-- A moment at which the sink refuses a text that is written at a site. -/
inductive Moment.Refuses : Moment σ → σ → Prop
  | write {α : Type} {budget : Nat} {tree : Tree σ} {context : Context σ}
      {state : State σ} {site : σ} {text : String} {next : Unit → Eval σ α} :
      state.sink.hasRoom text = false →
      Refuses ⟨budget, tree, .perform (.write site text) next, context, state⟩ site

theorem Moment.Refuses.raises {moment : Moment σ} {site : σ} (h : moment.Refuses site) :
    moment.Raises ⟨.sinkFull, site, moment.state.calls⟩ := by
  cases h with
  | write hroom => exact .action (State.write_eq_error_iff.mpr ⟨hroom, rfl, rfl⟩)

/-! ## Actions -/

namespace State

variable {state : State σ}

theorem unlimited_pushCall (call : Call σ) :
    (state.pushCall call).unlimited = state.unlimited.pushCall call := rfl

theorem answer_unlimited (site : σ) (result : Except Fault α) :
    state.unlimited.answer site result =
      ((state.answer site result).1, (state.answer site result).2.unlimited) := by
  cases result <;> rfl

theorem changeHeap_unlimited (site : σ) (operation : Heap → Heap.Change) :
    state.unlimited.changeHeap site operation =
      ((state.changeHeap site operation).1, (state.changeHeap site operation).2.unlimited) := by
  have hheap : state.unlimited.heap = state.heap := rfl
  rw [changeHeap, changeHeap, hheap]
  obtain _ | _ := operation state.heap <;> rfl

theorem write_unlimited {site : σ} {text : String} (h : state.sink.hasRoom text = true) :
    state.unlimited.write site text =
      ((state.write site text).1, (state.write site text).2.unlimited) := by
  have hroom : state.unlimited.sink.hasRoom text = true := by
    rw [Sink.hasRoom, Bool.or_eq_true]
    exact .inr rfl
  have hwrite (state : State σ) (hroom : state.sink.hasRoom text = true) :
      state.write site text = (.ok (), { state with sink := state.sink.write text }) :=
    write_eq_ok_iff.mpr ⟨hroom, rfl⟩
  rw [hwrite _ h, hwrite _ hroom]
  rfl

theorem sink_answer (site : σ) (result : Except Fault α) :
    (state.answer site result).2.sink = state.sink := by
  cases result <;> rfl

theorem sink_changeHeap (site : σ) (operation : Heap → Heap.Change) :
    (state.changeHeap site operation).2.sink = state.sink := by
  rw [changeHeap]
  obtain _ | _ := operation state.heap <;> rfl

end State

namespace Action

/-- An action by which a text is written that the sink refuses. -/
def Refused (state : State σ) : Action σ β → Prop
  | .write _ text => state.sink.hasRoom text = false
  | _ => False

/-- An action does the same without a limit, unless it is refused. -/
theorem run_unlimited {action : Action σ β} {state : State σ} (h : ¬ action.Refused state) :
    action.run state.unlimited = ((action.run state).1, (action.run state).2.unlimited) := by
  cases action with
  | lookup | element | apply | raise =>
      rw [run, run]
      exact State.answer_unlimited ..
  | declare | assign | setMember | bindDefinition =>
      rw [run, run]
      exact State.changeHeap_unlimited ..
  | write site text => exact State.write_unlimited (Bool.of_not_eq_false h)
  | _ => rfl

theorem Refused.run_ne_ok {action : Action σ β} {state after : State σ} {result : β}
    (h : action.Refused state) : action.run state ≠ (.ok result, after) := by
  intro hok
  cases action with
  | write site text =>
      have hroom := (State.write_eq_ok_iff.mp hok).1
      rw [Refused, hroom] at h
      cases h
  | _ => exact h

/-- What is printed is added to the pending text. -/
theorem exists_pending_run (action : Action σ β) (state : State σ) :
    ∃ more, (action.run state).2.sink.pending = state.sink.pending ++ more := by
  cases action with
  | lookup | element | apply | raise =>
      rw [run, State.sink_answer]
      exact ⟨"", String.append_empty.symm⟩
  | declare | assign | setMember | bindDefinition =>
      rw [run, State.sink_changeHeap]
      exact ⟨"", String.append_empty.symm⟩
  | write site text =>
      rw [run]
      cases hroom : state.sink.hasRoom text with
      | true =>
          have hwrite : state.write site text =
              (.ok (), { state with sink := state.sink.write text }) :=
            State.write_eq_ok_iff.mpr ⟨hroom, rfl⟩
          rw [hwrite]
          exact ⟨text, rfl⟩
      | false =>
          rw [State.write_eq_error_iff.mpr ⟨hroom, rfl, rfl⟩]
          exact ⟨"", String.append_empty.symm⟩
  | _ => exact ⟨"", String.append_empty.symm⟩

end Action

/-- What is pending in a state is pending in a later one, and perhaps more. -/
def State.Prints (state after : State σ) : Prop :=
  ∃ more, after.sink.pending = state.sink.pending ++ more

theorem State.respected_prints : Respected (State.Prints (σ := σ)) where
  refl _ := ⟨"", String.append_empty.symm⟩
  trans := by
    rintro first second third ⟨more, hmore⟩ ⟨further, hfurther⟩
    exact ⟨more ++ further, by rw [hfurther, hmore, String.append_assoc]⟩
  action action state := action.exists_pending_run state
  call h := h

namespace Outcome

variable {outcome : Outcome σ α}

theorem ofAction_unlimited (result : Except (RuntimeError σ) α × State σ) :
    ofAction (result.1, result.2.unlimited) = (ofAction result).unlimited := by
  obtain ⟨error | value, state⟩ := result <;> rfl

theorem unlimited_andThen (next further : α → State σ → Outcome σ β)
    (h : ∀ value middle, outcome = .done value middle →
      further value middle.unlimited = (next value middle).unlimited) :
    outcome.unlimited.andThen further = (outcome.andThen next).unlimited := by
  cases outcome with
  | done value middle => exact h value middle rfl
  | interrupted interrupt middle => rfl
  | exhausted => rfl

theorem attempted_unlimited : outcome.unlimited.attempted = outcome.attempted.unlimited := by
  cases outcome with
  | done value middle => rfl
  | interrupted interrupt middle => cases interrupt <;> rfl
  | exhausted => rfl

theorem popCall_unlimited : outcome.unlimited.popCall = outcome.popCall.unlimited := by
  cases outcome <;> rfl

end Outcome

namespace Moment

open Eval

variable {first moment next : Moment σ}

/-- From a moment on, no text is refused. -/
def Unrefused (moment : Moment σ) : Prop :=
  ∀ later site, moment.Reaches later → ¬ later.Refuses site

/-- Either no text is refused, or there is a moment at which one is. -/
theorem unrefused_or_exists (moment : Moment σ) :
    moment.Unrefused ∨ ∃ later site, moment.Reaches later ∧ later.Refuses site := by
  obtain hrefused | hnone := Classical.em (∃ later site, moment.Reaches later ∧ later.Refuses site)
  · exact .inr hrefused
  · exact .inl fun later site hreaches hrefuses => hnone ⟨later, site, hreaches, hrefuses⟩

theorem Unrefused.later (h : moment.Unrefused) (hleads : Leads moment next) : next.Unrefused :=
  fun later site hreaches => h later site (.head hleads hreaches)

theorem Unrefused.not_refused {budget : Nat} {tree : Tree σ} {context : Context σ}
    {state : State σ} {action : Action σ β} {next : β → Eval σ α}
    (h : Unrefused ⟨budget, tree, .perform action next, context, state⟩) :
    ¬ action.Refused state := by
  intro hrefused
  cases action with
  | write site text => exact h _ _ .refl (.write hrefused)
  | _ => exact hrefused

/-- A run of a plan in which no text is refused is the run without a limit, if this is so for
the trees that it visits. -/
theorem Unrefused.run_of_visited {budget : Nat}
    (hvisited : ∀ {visited : Tree σ} {scope : FrameId} {α : Type} {tree : Tree σ}
      {context : Context σ} {state : State σ} {next : Value → Eval σ α},
      Unrefused ⟨budget, tree, .visiting visited scope next, context, state⟩ →
      evaluate budget visited scope state.unlimited =
        (evaluate budget visited scope state).unlimited)
    {α : Type} (rest : Eval σ α) :
    ∀ {tree : Tree σ} {context : Context σ} {state : State σ},
      Unrefused ⟨budget, tree, rest, context, state⟩ →
      rest.run (evaluate budget) state.unlimited =
        (rest.run (evaluate budget) state).unlimited := by
  induction rest with
  | give value | leave exit | exhausted => exact fun _ => rfl
  | perform action next ih =>
      intro tree context state h
      rw [run_perform, run_perform, Action.run_unlimited h.not_refused]
      rw [Outcome.ofAction_unlimited]
      exact Outcome.unlimited_andThen _ _ fun result middle hresult =>
        ih result (h.later (.perform (Outcome.eq_of_ofAction_eq_done hresult)))
  | visiting visited scope next ih =>
      intro tree context state h
      rw [run_visiting, run_visiting, hvisited h]
      exact Outcome.unlimited_andThen _ _ fun value middle hdone =>
        ih value (h.later (.pastTree hdone))
  | attempting body next ihBody ih =>
      intro tree context state h
      rw [run_attempting, run_attempting, ihBody (h.later .intoAttempt),
        Outcome.attempted_unlimited]
      exact Outcome.unlimited_andThen _ _ fun result middle hresult =>
        ih result (h.later (.pastAttempted hresult))
  | calling call body next ihBody ih =>
      intro tree context state h
      obtain hfew | hdeep := Nat.lt_or_ge state.calls.length State.maxCalls
      · have hfew' : state.unlimited.calls.length < State.maxCalls := hfew
        rw [run_calling call body next hfew, run_calling call body next hfew',
          ← State.unlimited_pushCall, ihBody (h.later (.intoCall hfew)),
          Outcome.popCall_unlimited]
        refine Outcome.unlimited_andThen _ _ fun value middle hdone => ?_
        obtain ⟨inner, hinner, rfl⟩ := Outcome.exists_of_popCall_eq_done hdone
        exact ih value (h.later (.pastCall hfew hinner))
      · have hdeep' : State.maxCalls ≤ state.unlimited.calls.length := hdeep
        rw [run_calling_of_deep call body next hdeep, run_calling_of_deep call body next hdeep']
        rfl

/-- The evaluation of a tree in which no text is refused is the one without a limit. -/
theorem Unrefused.evaluate :
    ∀ {budget : Nat} {visited : Tree σ} {scope : FrameId} {α : Type} {tree : Tree σ}
      {context : Context σ} {state : State σ} {next : Value → Eval σ α},
      Unrefused ⟨budget, tree, .visiting visited scope next, context, state⟩ →
      Eval.evaluate budget visited scope state.unlimited =
        (Eval.evaluate budget visited scope state).unlimited := by
  intro budget
  induction budget with
  | zero => exact fun _ => rfl
  | succ budget ih =>
      intro visited scope α tree context state next h
      exact run_of_visited ih _ (h.later .intoTree)

/-- Whatever goes on from a moment without a text that is refused goes on in the same way
without a limit. -/
theorem Unrefused.outcome_unlimited (h : moment.Unrefused) :
    moment.unlimited.outcome = moment.outcome.unlimited :=
  run_of_visited Unrefused.evaluate moment.rest h

/-- A plan that runs without an error does so without a limit too. -/
theorem run_unlimited {budget : Nat} {state : State σ} (tree : Tree σ) {rest : Eval σ α}
    {outcome : Outcome σ α} (h : rest.run (Eval.evaluate budget) state = outcome)
    (hends : ∀ error after, outcome ≠ .interrupted (.error error) after) :
    rest.run (Eval.evaluate budget) state.unlimited = outcome.unlimited := by
  have hunrefused : Unrefused ⟨budget, tree, rest, ⟨[], []⟩, state⟩ := by
    intro later site hreaches hrefuses
    obtain ⟨after, hfails, -⟩ := Reaches.failsAt hreaches hrefuses.raises
    exact hends _ _ (h.symm.trans hfails)
  rw [← h]
  exact hunrefused.outcome_unlimited

theorem run_unlimited_of_done {budget : Nat} {state after : State σ} {value : α} (tree : Tree σ)
    {rest : Eval σ α} (h : rest.run (Eval.evaluate budget) state = .done value after) :
    rest.run (Eval.evaluate budget) state.unlimited = .done value after.unlimited := by
  refine run_unlimited tree h ?_
  intro error after hfails
  cases hfails

theorem run_unlimited_of_exit {budget : Nat} {state after : State σ} {exit : Exit σ}
    (tree : Tree σ) {rest : Eval σ α}
    (h : rest.run (Eval.evaluate budget) state = .interrupted (.exit exit) after) :
    rest.run (Eval.evaluate budget) state.unlimited =
      .interrupted (.exit exit) after.unlimited := by
  refine run_unlimited tree h ?_
  intro error after hfails
  cases hfails

/-- Each step of an evaluation is one without a limit too. -/
theorem Leads.unlimited (h : Leads moment next) : Leads moment.unlimited next.unlimited := by
  cases h with
  | perform hresult =>
      have hrun := Action.run_unlimited fun hrefused => hrefused.run_ne_ok hresult
      rw [hresult] at hrun
      exact .perform hrun
  | intoTree => exact .intoTree
  | @pastTree _ _ tree visited scope _ _ _ _ _ hdone =>
      have hrun := run_unlimited_of_done tree ((run_visit visited scope _).trans hdone)
      rw [run_visit] at hrun
      exact .pastTree hrun
  | intoAttempt => exact .intoAttempt
  | @pastAttempt _ _ _ tree _ _ _ _ _ _ hdone =>
      exact .pastAttempt (run_unlimited_of_done tree hdone)
  | @pastExit _ _ _ tree _ _ _ _ _ _ hexit =>
      exact .pastExit (run_unlimited_of_exit tree hexit)
  | intoCall hfew => exact .intoCall hfew
  | @pastCall _ _ _ tree _ state _ _ _ _ _ hfew hdone =>
      have hfew' : state.unlimited.calls.length < State.maxCalls := hfew
      have hrun := run_unlimited_of_done tree hdone
      rw [State.unlimited_pushCall] at hrun
      exact .pastCall hfew' hrun

/-- Each moment of an evaluation is one of the evaluation without a limit too. -/
theorem Reaches.unlimited (h : first.Reaches moment) :
    first.unlimited.Reaches moment.unlimited := by
  induction h with
  | refl => exact .refl
  | tail _ hleads ih => exact ih.tail hleads.unlimited

/-! ## What is printed -/

/-- What was printed before a moment stays printed where the evaluation goes on. -/
theorem Leads.prints {state : State σ} (h : Leads moment next)
    (hnext : next.outcome.After state.Prints) : moment.outcome.After state.Prints := by
  have hrest {α : Type} {budget : Nat} {middle : State σ} (rest : Eval σ α)
      (hmiddle : state.Prints middle) :
      (rest.run (Eval.evaluate budget) middle).After state.Prints :=
    (State.respected_prints.run (State.respected_prints.evaluate budget) rest middle).imp
      (State.respected_prints.trans hmiddle)
  cases h with
  | perform hresult =>
      rw [outcome, run_perform, hresult]
      exact hnext
  | intoTree =>
      rw [outcome, run_visiting]
      exact .andThen hnext id fun _ _ _ hmiddle => hrest _ hmiddle
  | pastTree hdone =>
      rw [outcome, run_visiting, hdone]
      exact hnext
  | intoAttempt =>
      rw [outcome, run_attempting]
      exact .andThen (.attempted hnext) id fun _ _ _ hmiddle => hrest _ hmiddle
  | pastAttempt hdone =>
      rw [outcome, run_attempting, hdone]
      exact hnext
  | pastExit hexit =>
      rw [outcome, run_attempting, hexit]
      exact hnext
  | intoCall hfew =>
      rw [outcome, run_calling _ _ _ hfew]
      exact .andThen (.popCall hnext id) id fun _ _ _ hmiddle => hrest _ hmiddle
  | pastCall hfew hdone =>
      rw [outcome, run_calling _ _ _ hfew, hdone]
      exact hnext

/-- What is pending at a moment is pending where the evaluation ends, and perhaps more. -/
theorem Reaches.prints (h : first.Reaches moment) :
    first.outcome.After moment.state.Prints := by
  induction h using Relation.ReflTransGen.head_induction_on with
  | refl =>
      exact State.respected_prints.run (State.respected_prints.evaluate moment.budget) moment.rest
        moment.state
  | head hleads _ ih => exact hleads.prints ih

end Moment

end Script
