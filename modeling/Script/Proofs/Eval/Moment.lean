/-
# Moments of an evaluation

An evaluation follows plans: the plan of a tree, within it the plans of the trees that
it visits, and so on. A moment is what an observer sees in between two actions: what is
left of the innermost plan, the tree whose plan it is, the calls that enclose it and
the state. One moment leads to another by an action, by going into a tree, a body or a
call, or by going past one that has ended.

What lies behind a moment is gathered here from the plans alone and not read off the
state: the values that the plan was given so far, and the calls that enclose it, each
with the values of its callee and its arguments. So the stack of calls in the state can
be compared with them.
-/

import Mathlib.Logic.Relation
import Script.Proofs.Eval.Change

namespace Script

variable {σ : Type}

/-- A call that has begun and not ended: the call expression, and the trees that its plan
had visited when the call began, each with the value that it gave. -/
structure ActiveCall (σ : Type) where
  expression : Tree σ
  given : List (Tree σ × Value)

/-- The name of the function that is called. The callee is what gives the first value. -/
def ActiveCall.name (active : ActiveCall σ) : String :=
  match active.given with
  | (_, .function name _) :: _ => name
  | _ => ""

theorem ActiveCall.name_eq {active : ActiveCall σ} {callee : Tree σ} {name : String}
    {id : FunctionId} {others : List (Tree σ × Value)}
    (h : active.given = (callee, .function name id) :: others) : active.name = name := by
  rw [ActiveCall.name, h]

/-- What the stack of calls should hold for a call. -/
def ActiveCall.call (active : ActiveCall σ) : Call σ := ⟨active.name, active.expression.site⟩

/-- What lies behind a moment: the trees that the plan has visited since it last tried a
body, in order and with the values that they gave, and the calls that enclose the moment,
the innermost first. -/
structure Context (σ : Type) where
  given : List (Tree σ × Value)
  active : List (ActiveCall σ)

namespace Context

/-- The values that the plan was given. -/
def values (context : Context σ) : List Value := context.given.map Prod.snd

/-- Behind a visit. -/
def visited (context : Context σ) (tree : Tree σ) (value : Value) : Context σ :=
  { context with given := context.given ++ [(tree, value)] }

/-- Where nothing was given yet. -/
def anew (context : Context σ) : Context σ := { context with given := [] }

/-- Inside a call. -/
def called (context : Context σ) (expression : Tree σ) : Context σ :=
  { context with active := ⟨expression, context.given⟩ :: context.active }

theorem values_eq {context : Context σ} {callee : Tree σ} {called : Value}
    {arguments : List (Tree σ)} {values : List Value}
    (hgiven : context.given = (callee, called) :: arguments.zip values)
    (hlength : values.length = arguments.length) : context.values = called :: values := by
  rw [Context.values, hgiven, List.map_cons, List.map_snd_zip (Nat.le_of_eq hlength)]

end Context

/-- A moment of an evaluation: the budget for the trees that are still visited, the tree
whose plan is being followed and what is left of the plan, what lies behind it, and the
state. -/
structure Moment (σ : Type) where
  {α : Type}
  budget : Nat
  tree : Tree σ
  rest : Eval σ α
  context : Context σ
  state : State σ

namespace Moment

open Eval

/-- The moment before a tree is evaluated in a frame, with no call active. The tree is what
is left of a block around it. -/
def start (budget : Nat) (tree : Tree σ) (scope : FrameId) (state : State σ) : Moment σ :=
  ⟨budget, .block tree.site [tree], visit tree scope, ⟨[], []⟩, state⟩

/-- How a moment leads to the next, or into what it visits, or past it. -/
inductive Leads : Moment σ → Moment σ → Prop
  | perform {α β : Type} {budget : Nat} {tree : Tree σ} {context : Context σ}
      {state after : State σ} {action : Action σ β} {next : β → Eval σ α} {result : β} :
      action.run state = (.ok result, after) →
      Leads ⟨budget, tree, .perform action next, context, state⟩
        ⟨budget, tree, next result, context, after⟩
  | intoTree {α : Type} {budget : Nat} {tree visited : Tree σ} {scope : FrameId}
      {context : Context σ} {state : State σ} {next : Value → Eval σ α} :
      Leads ⟨budget + 1, tree, .visiting visited scope next, context, state⟩
        ⟨budget, visited, step budget visited scope, context.anew, state⟩
  | pastTree {α : Type} {budget : Nat} {tree visited : Tree σ} {scope : FrameId}
      {context : Context σ} {state after : State σ} {next : Value → Eval σ α}
      {value : Value} :
      evaluate budget visited scope state = .done value after →
      Leads ⟨budget, tree, .visiting visited scope next, context, state⟩
        ⟨budget, tree, next value, context.visited visited value, after⟩
  | intoAttempt {α β : Type} {budget : Nat} {tree : Tree σ} {context : Context σ}
      {state : State σ} {body : Eval σ β} {next : Except (Exit σ) β → Eval σ α} :
      Leads ⟨budget, tree, .attempting body next, context, state⟩
        ⟨budget, tree, body, context, state⟩
  | pastAttempt {α β : Type} {budget : Nat} {tree : Tree σ} {context : Context σ}
      {state after : State σ} {body : Eval σ β} {next : Except (Exit σ) β → Eval σ α}
      {value : β} :
      body.run (evaluate budget) state = .done value after →
      Leads ⟨budget, tree, .attempting body next, context, state⟩
        ⟨budget, tree, next (.ok value), context.anew, after⟩
  | pastExit {α β : Type} {budget : Nat} {tree : Tree σ} {context : Context σ}
      {state after : State σ} {body : Eval σ β} {next : Except (Exit σ) β → Eval σ α}
      {exit : Exit σ} :
      body.run (evaluate budget) state = .interrupted (.exit exit) after →
      Leads ⟨budget, tree, .attempting body next, context, state⟩
        ⟨budget, tree, next (.error exit), context.anew, after⟩
  | intoCall {α β : Type} {budget : Nat} {tree : Tree σ} {context : Context σ}
      {state : State σ} {call : Call σ} {body : Eval σ β} {next : β → Eval σ α} :
      state.calls.length < State.maxCalls →
      Leads ⟨budget, tree, .calling call body next, context, state⟩
        ⟨budget, tree, body, context.called tree, state.pushCall call⟩
  | pastCall {α β : Type} {budget : Nat} {tree : Tree σ} {context : Context σ}
      {state after : State σ} {call : Call σ} {body : Eval σ β} {next : β → Eval σ α}
      {value : β} :
      state.calls.length < State.maxCalls →
      body.run (evaluate budget) (state.pushCall call) = .done value after →
      Leads ⟨budget, tree, .calling call body next, context, state⟩
        ⟨budget, tree, next value, context, after.popCall⟩

/-- A moment at which a body is tried leads to what goes on from its end, be it a value or
an early exit. -/
theorem Leads.pastAttempted {α β : Type} {budget : Nat} {tree : Tree σ}
    {context : Context σ} {state after : State σ} {body : Eval σ β}
    {next : Except (Exit σ) β → Eval σ α} {result : Except (Exit σ) β}
    (h : (body.run (evaluate budget) state).attempted = .done result after) :
    Leads ⟨budget, tree, .attempting body next, context, state⟩
      ⟨budget, tree, next result, context.anew, after⟩ := by
  cases result with
  | ok value => exact .pastAttempt (Outcome.eq_of_attempted_eq_ok h)
  | error exit => exact .pastExit (Outcome.eq_of_attempted_eq_exit h)

/-- A moment at which a call begins, and the first moment inside the call. -/
inductive Enters : Moment σ → Moment σ → Prop
  | intro {α β : Type} {budget : Nat} {tree : Tree σ} {context : Context σ} {state : State σ}
      {call : Call σ} {body : Eval σ β} {next : β → Eval σ α} :
      state.calls.length < State.maxCalls →
      Enters ⟨budget, tree, .calling call body next, context, state⟩
        ⟨budget, tree, body, context.called tree, state.pushCall call⟩

/-- Only where a call begins are other calls active, and a relation may not be respected. -/
theorem Leads.respects_or_enters {relation : State σ → State σ → Prop}
    (hrespected : Respected relation) {moment next : Moment σ} (h : Leads moment next) :
    (next.context.active = moment.context.active ∧ relation moment.state next.state) ∨
      Enters moment next := by
  cases h with
  | @perform _ _ _ _ _ state _ action _ _ hresult =>
      have haction := hrespected.action action state
      rw [hresult] at haction
      exact .inl ⟨rfl, haction⟩
  | intoTree | intoAttempt => exact .inl ⟨rfl, hrespected.refl _⟩
  | @pastTree _ budget _ visited scope _ state after _ _ hdone =>
      have hvisit := hrespected.evaluate budget visited scope state
      rw [hdone] at hvisit
      exact .inl ⟨rfl, hvisit⟩
  | pastAttempt hdone => exact .inl ⟨rfl, hrespected.of_done hdone⟩
  | pastExit hexit => exact .inl ⟨rfl, hrespected.of_interrupted hexit⟩
  | intoCall hfew => exact .inr (.intro hfew)
  | pastCall _ hdone => exact .inl ⟨rfl, hrespected.call (hrespected.of_done hdone)⟩

/-- A later moment of the same evaluation. -/
abbrev Reaches : Moment σ → Moment σ → Prop := Relation.ReflTransGen Leads

/-- A moment at which an error arises: an action fails, or one call too many is begun. -/
inductive Raises : Moment σ → RuntimeError σ → Prop
  | action {α β : Type} {budget : Nat} {tree : Tree σ} {context : Context σ}
      {state after : State σ} {action : Action σ β} {next : β → Eval σ α}
      {error : RuntimeError σ} :
      action.run state = (.error error, after) →
      Raises ⟨budget, tree, .perform action next, context, state⟩ error
  | tooDeep {α β : Type} {budget : Nat} {tree : Tree σ} {context : Context σ}
      {state : State σ} {call : Call σ} {body : Eval σ β} {next : β → Eval σ α} :
      State.maxCalls ≤ state.calls.length →
      Raises ⟨budget, tree, .calling call body next, context, state⟩
        ⟨.tooDeep, call.site, state.calls⟩

/-- The moments of a plan at which errors arise are found if those of the trees that it
visits are. -/
theorem exists_raises_of_run {budget : Nat} {error : RuntimeError σ}
    (hvisited : ∀ {visited : Tree σ} {scope : FrameId} {state after : State σ},
      evaluate budget visited scope state = .interrupted (.error error) after →
      ∀ {α : Type} {tree : Tree σ} {context : Context σ} {next : Value → Eval σ α},
        ∃ moment, Reaches ⟨budget, tree, .visiting visited scope next, context, state⟩ moment ∧
          moment.Raises error)
    {α : Type} (rest : Eval σ α) :
    ∀ {tree : Tree σ} {context : Context σ} {state after : State σ},
      rest.run (evaluate budget) state = .interrupted (.error error) after →
      ∃ moment, Reaches ⟨budget, tree, rest, context, state⟩ moment ∧ moment.Raises error := by
  induction rest with
  | give value =>
      intro tree context state after hrun
      cases hrun
  | leave exit =>
      intro tree context state after hrun
      cases hrun
  | exhausted =>
      intro tree context state after hrun
      cases hrun
  | perform action next ih =>
      intro tree context state after hrun
      rw [run_perform] at hrun
      obtain herror | ⟨result, middle, hresult, hrun⟩ := Outcome.eq_interrupted_of_andThen hrun
      · exact ⟨_, .refl, .action (Outcome.eq_of_ofAction_eq_error herror)⟩
      · obtain ⟨moment, hreach, hraises⟩ := ih result hrun
        have haction := Outcome.eq_of_ofAction_eq_done hresult
        exact ⟨moment, .head (.perform haction) hreach, hraises⟩
  | visiting visited scope next ih =>
      intro tree context state after hrun
      rw [run_visiting] at hrun
      obtain herror | ⟨value, middle, hdone, hrun⟩ := Outcome.eq_interrupted_of_andThen hrun
      · exact hvisited herror
      · obtain ⟨moment, hreach, hraises⟩ := ih value hrun
        exact ⟨moment, .head (.pastTree hdone) hreach, hraises⟩
  | attempting body next ihBody ih =>
      intro tree context state after hrun
      rw [run_attempting] at hrun
      obtain herror | ⟨result, middle, hresult, hrun⟩ := Outcome.eq_interrupted_of_andThen hrun
      · obtain ⟨moment, hreach, hraises⟩ :=
          ihBody (Outcome.eq_of_attempted_eq_interrupted herror)
        exact ⟨moment, .head .intoAttempt hreach, hraises⟩
      · obtain ⟨moment, hreach, hraises⟩ := ih result hrun
        exact ⟨moment, .head (.pastAttempted hresult) hreach, hraises⟩
  | calling call body next ihBody ih =>
      intro tree context state after hrun
      obtain hfew | hdeep := Nat.lt_or_ge state.calls.length State.maxCalls
      · rw [run_calling call body next hfew] at hrun
        obtain herror | ⟨value, middle, hdone, hrun⟩ := Outcome.eq_interrupted_of_andThen hrun
        · obtain ⟨inner, hinner, rfl⟩ := Outcome.exists_of_popCall_eq_interrupted herror
          obtain ⟨moment, hreach, hraises⟩ := ihBody hinner
          exact ⟨moment, .head (.intoCall hfew) hreach, hraises⟩
        · obtain ⟨inner, hinner, rfl⟩ := Outcome.exists_of_popCall_eq_done hdone
          obtain ⟨moment, hreach, hraises⟩ := ih value hrun
          exact ⟨moment, .head (.pastCall hfew hinner) hreach, hraises⟩
      · rw [run_calling_of_deep call body next hdeep] at hrun
        cases hrun
        exact ⟨_, .refl, .tooDeep hdeep⟩

/-- An error that ends the evaluation of a tree arose at a moment behind the one at which
the tree was visited. -/
theorem exists_raises_of_evaluate {error : RuntimeError σ} :
    ∀ {budget : Nat} {visited : Tree σ} {scope : FrameId} {state after : State σ},
      evaluate budget visited scope state = .interrupted (.error error) after →
      ∀ {α : Type} {tree : Tree σ} {context : Context σ} {next : Value → Eval σ α},
        ∃ moment, Reaches ⟨budget, tree, .visiting visited scope next, context, state⟩ moment ∧
          moment.Raises error := by
  intro budget
  induction budget with
  | zero =>
      intro visited scope state after herror
      cases herror
  | succ budget ih =>
      intro visited scope state after herror α tree context next
      obtain ⟨moment, hreach, hraises⟩ := exists_raises_of_run ih _ herror
      exact ⟨moment, .head .intoTree hreach, hraises⟩

/-! ## What every action respects -/

/-- A moment at which an action is asked for. -/
inductive Asks {β : Type} : Moment σ → Action σ β → Prop
  | perform {α : Type} {budget : Nat} {tree : Tree σ} {context : Context σ}
      {state : State σ} {action : Action σ β} {next : β → Eval σ α} :
      Asks ⟨budget, tree, .perform action next, context, state⟩ action

/-- A relation between a state and a later one that composes, and that neither the
beginning nor the end of a call leaves. -/
structure Composes (relation : State σ → State σ → Prop) : Prop where
  refl : ∀ state, relation state state
  trans : ∀ {first second third}, relation first second → relation second third →
    relation first third
  call : ∀ {call : Call σ} {state after : State σ}, relation (state.pushCall call) after →
    relation state after.popCall

/-- From a moment on, every action that is asked for respects a relation. -/
def Respects (relation : State σ → State σ → Prop) (moment : Moment σ) : Prop :=
  ∀ {β : Type} {later : Moment σ} {action : Action σ β}, moment.Reaches later →
    later.Asks action → relation later.state (action.run later.state).2

variable {relation : State σ → State σ → Prop}

theorem Respects.later {moment next : Moment σ} (h : moment.Respects relation)
    (hleads : Leads moment next) : next.Respects relation :=
  fun hreaches => h (.head hleads hreaches)

/-- The run of a plan respects a relation if the actions behind its moment do, and if the
trees that it visits do where the actions behind theirs do. -/
theorem Respects.run_of_visited {budget : Nat} (hcomposes : Composes relation)
    (hvisited : ∀ {visited : Tree σ} {scope : FrameId} {α : Type} {tree : Tree σ}
      {context : Context σ} {state : State σ} {next : Value → Eval σ α},
      Respects relation ⟨budget, tree, .visiting visited scope next, context, state⟩ →
      (evaluate budget visited scope state).After (relation state))
    {α : Type} (rest : Eval σ α) :
    ∀ {tree : Tree σ} {context : Context σ} {state : State σ},
      Respects relation ⟨budget, tree, rest, context, state⟩ →
      (rest.run (evaluate budget) state).After (relation state) := by
  induction rest with
  | give value | leave exit => exact fun _ => hcomposes.refl _
  | exhausted => exact fun _ => trivial
  | perform action next ih =>
      intro tree context state h
      rw [run_perform]
      refine .andThen (.ofAction (h .refl .perform)) id fun result middle hdone haction => ?_
      have hresult := Outcome.eq_of_ofAction_eq_done hdone
      exact (ih result (h.later (.perform hresult))).imp (hcomposes.trans haction)
  | visiting visited scope next ih =>
      intro tree context state h
      rw [run_visiting]
      refine .andThen (hvisited h) id fun value middle hdone hvisit => ?_
      exact (ih value (h.later (.pastTree hdone))).imp (hcomposes.trans hvisit)
  | attempting body next ihBody ih =>
      intro tree context state h
      rw [run_attempting]
      refine .andThen (ihBody (h.later .intoAttempt)).attempted id ?_
      intro result middle hresult hbody
      exact (ih result (h.later (.pastAttempted hresult))).imp (hcomposes.trans hbody)
  | calling call body next ihBody ih =>
      intro tree context state h
      obtain hfew | hdeep := Nat.lt_or_ge state.calls.length State.maxCalls
      · rw [run_calling call body next hfew]
        refine .andThen ((ihBody (h.later (.intoCall hfew))).popCall hcomposes.call) id ?_
        intro value middle hdone hbody
        obtain ⟨inner, hinner, rfl⟩ := Outcome.exists_of_popCall_eq_done hdone
        exact (ih value (h.later (.pastCall hfew hinner))).imp (hcomposes.trans hbody)
      · rw [run_calling_of_deep call body next hdeep]
        exact hcomposes.refl state

/-- The evaluation of a tree respects a relation if the actions behind the moment at which
the tree is visited do. -/
theorem Respects.evaluate (hcomposes : Composes relation) :
    ∀ {budget : Nat} {visited : Tree σ} {scope : FrameId} {α : Type} {tree : Tree σ}
      {context : Context σ} {state : State σ} {next : Value → Eval σ α},
      Respects relation ⟨budget, tree, .visiting visited scope next, context, state⟩ →
      (Eval.evaluate budget visited scope state).After (relation state) := by
  intro budget
  induction budget with
  | zero => exact fun _ => trivial
  | succ budget ih =>
      intro visited scope α tree context state next h
      exact run_of_visited hcomposes ih _ (h.later .intoTree)

/-- Whatever all actions respect that are asked for from a moment on, the run of what is
left of the plan at that moment respects. -/
theorem Respects.run {moment : Moment σ} (h : moment.Respects relation)
    (hcomposes : Composes relation) :
    (moment.rest.run (Eval.evaluate moment.budget) moment.state).After
      (relation moment.state) :=
  run_of_visited hcomposes (Respects.evaluate hcomposes) moment.rest h

end Moment

end Script
