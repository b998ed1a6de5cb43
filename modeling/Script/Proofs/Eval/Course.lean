/-
# The course of an evaluation

At every moment of an evaluation the plan that is followed visits what it is the turn of,
in terms of what it was given so far, of the state and of the calls that enclose the
moment. So where the body of a branch or of a round is visited, the frame of the visit was
made just before, and where the body of a function is visited, the innermost call is one
of that function.
-/

import Script.Proofs.Eval.Bind
import Script.Proofs.Eval.Reach
import Script.Proofs.Eval.Turn

namespace Script

open Eval

variable {σ : Type}

/-! ## The turns of bodies -/

/-- No body comes first. -/
theorem Tree.turn_nil_ne_body (tree body : Tree σ) : tree.turn [] ≠ .body body := by
  cases tree <;> exact nofun

theorem Turn.argument_eq_function {given callee : Value} {arguments : List (Tree σ)}
    {values : List Value} (h : Turn.argument given arguments values = .function callee) :
    given = callee := by
  induction arguments generalizing values with
  | nil =>
      cases values with
      | nil =>
          cases h
          rfl
      | cons value values => cases h
  | cons argument arguments ih =>
      cases values with
      | nil => cases h
      | cons value values => exact ih h

theorem Branches.turn_ne_function {branches : Branches σ} {values : List Value}
    {callee : Value} : branches.turn values ≠ .function callee := by
  intro h
  induction branches, values using Branches.turn.induct with
  | case1 | case3 => cases h
  | case2 body values => cases values <;> cases h
  | case4 condition body rest value values htruthy =>
      rw [Branches.turn, if_pos htruthy] at h
      cases values <;> cases h
  | case5 condition body rest value values hfails ih =>
      rw [Branches.turn, if_neg hfails] at h
      exact ih h

/-- Only a call visits the body of a function, and its first value is that of the callee. -/
theorem Tree.exists_of_turn_eq_function {tree : Tree σ} {values : List Value} {callee : Value}
    (h : tree.turn values = .function callee) : ∃ others, values = callee :: others := by
  cases tree with
  | call site tree arguments =>
      cases values with
      | nil => cases h
      | cons value values =>
          cases Turn.argument_eq_function h
          exact ⟨values, rfl⟩
  | conditional | whileLoop => exact (Branches.turn_ne_function h).elim
  | _ => cases h

/-! ## The last action -/

/-- What the last action found is there. -/
def Latest.Holds (state : State σ) : Latest σ → Prop
  | .found id function => state.function? id = some function
  | _ => True

section Action

variable {α : Type} {action : Action σ α} {state after : State σ} {result : α}

theorem Action.latest_holds (h : action.run state = (.ok result, after)) :
    (action.latest result).Holds after := by
  cases action with
  | function? id =>
      cases h
      cases hfound : state.function? id with
      | none => trivial
      | some function => exact hfound
  | _ => trivial

theorem Action.enter_of_latest {outer inner : FrameId}
    (h : action.run state = (.ok result, after))
    (hmade : action.latest result = .made outer inner) : state.enter outer = (inner, after) := by
  cases action with
  | enter scope =>
      cases h
      cases hmade
      rfl
  | function? id => cases result <;> cases hmade
  | _ => cases hmade

end Action

/-! ## Calls -/

/-- The call of a call expression with all that it takes: the callee gave a function, and
every argument a value. -/
def ActiveCall.Called (active : ActiveCall σ) : Prop :=
  ∃ site callee arguments name id values, active.expression = .call site callee arguments ∧
    active.given = (callee, .function name id) :: arguments.zip values ∧
    values.length = arguments.length

/-- The innermost call is one of a closure, whose plan was given what it was given when the
call began. -/
def Entered.Holds (entered : Entered σ) (tree : Tree σ) (active : List (ActiveCall σ))
    (state : State σ) : Prop :=
  ∃ outer name id callee others, active = ⟨tree, entered.given⟩ :: outer ∧
    entered.given = (callee, .function name id) :: others ∧
    state.function? id = some (.closure entered.closure)

theorem Entered.Holds.mono {entered : Entered σ} {tree : Tree σ} {active : List (ActiveCall σ)}
    {state after : State σ} (h : entered.Holds tree active state)
    (hgrows : state.store.Grows after.store) : entered.Holds tree active after := by
  obtain ⟨outer, name, id, callee, others, hactive, hgiven, hfunction⟩ := h
  exact ⟨outer, name, id, callee, others, hactive, hgiven, hgrows.functions hfunction⟩

namespace Moment

/-- What is left of the plan visits a tree in a frame. -/
def Visits (moment : Moment σ) (tree : Tree σ) (scope : FrameId) : Prop :=
  ∃ next : Value → Eval σ moment.α, moment.rest = .visiting tree scope next

/-- What is left of the plan begins a call with a body. -/
def Calls {β : Type} (moment : Moment σ) (call : Call σ) (body : Eval σ β) : Prop :=
  ∃ next : β → Eval σ moment.α, moment.rest = .calling call body next

/-- What is left of the plan is in turn, where the last action and the call that the plan is
inside of, if it is inside of one, are as they should be. -/
def InTurn (moment : Moment σ) : Prop :=
  ∃ latest entered, moment.rest.InTurn moment.tree moment.context.given latest entered ∧
    latest.Holds moment.state ∧
    ∀ inside, entered = some inside → inside.Holds moment.tree moment.context.active moment.state

/-- A call of a closure begins as it should: at a call expression, whose callee gave the
function by whose name the call goes; what is found for it is invoked with what the
arguments gave. -/
def BeginsCall {β : Type} (moment : Moment σ) (call : Call σ) (body : Eval σ β)
    (closure : Closure σ) : Prop :=
  ∃ callee arguments id values, moment.tree = .call call.site callee arguments ∧
    moment.context.given = (callee, .function call.name id) :: arguments.zip values ∧
    values.length = arguments.length ∧
    moment.state.function? id = some (.closure closure) ∧ body.Invokes call closure values

theorem InTurn.beginsCall {β : Type} {moment : Moment σ} {call : Call σ} {body : Eval σ β}
    (h : moment.InTurn) (hkeeps : moment.Keeps (.ofRules .free))
    (hcalls : moment.Calls call body) :
    ∃ closure, moment.BeginsCall call body closure ∧
      body.InTurn moment.tree moment.context.given .nothing
        (some ⟨moment.context.given, closure⟩) := by
  obtain ⟨next, hrest⟩ := hcalls
  obtain ⟨latest, entered, hplan, hlatest, _⟩ := h
  obtain ⟨_, _, _, hsafe⟩ := hkeeps
  rw [hrest] at hplan hsafe
  obtain ⟨⟨callee, arguments, hwhole⟩, _, _⟩ := hsafe
  obtain ⟨⟨inside, hbegins, hbody⟩, _⟩ := hplan
  obtain ⟨id, closure, values, hgiven, hlength, rfl, hinvokes, rfl⟩ := hbegins _ _ _ hwhole
  exact ⟨closure, ⟨callee, arguments, id, values, hwhole, hgiven, hlength, hlatest, hinvokes⟩,
    hbody⟩

/-- The first moment is in turn. -/
theorem inTurn_start (budget : Nat) (tree : Tree σ) (scope : FrameId) (state : State σ) :
    (start budget tree scope state).InTurn :=
  ⟨.nothing, none, inTurn_of_free (fun _ => rfl) _, trivial, nofun⟩

/-- So is the moment at which the evaluation of a tree begins. -/
theorem inTurn_of_step {budget : Nat} {tree : Tree σ} {scope : FrameId} {context : Context σ}
    {state : State σ} :
    InTurn ⟨budget, tree, step budget tree scope, context.anew, state⟩ :=
  ⟨.nothing, none, inTurn_step _ _, trivial, nofun⟩

theorem Leads.grows {moment next : Moment σ} (h : Leads moment next) :
    moment.state.store.Grows next.state.store := by
  obtain ⟨_, hgrows⟩ | henters := h.respects_or_enters respected_grows
  · exact hgrows
  · cases henters
    exact .refl _

/-- The moment to which another leads is in turn if that one is. -/
theorem Leads.inTurn {moment next : Moment σ} (h : Leads moment next)
    (hkeeps : moment.Keeps (.ofRules .free)) (hturn : moment.InTurn) : next.InTurn := by
  have hgrows := h.grows
  cases h with
  | perform hresult =>
      obtain ⟨latest, entered, hplan, _, hinside⟩ := hturn
      exact ⟨_, entered, hplan _, Action.latest_holds hresult,
        fun inside hentered => (hinside inside hentered).mono hgrows⟩
  | intoTree => exact inTurn_of_step
  | pastTree _ | pastAttempt _ | pastExit _ | pastCall _ _ =>
      obtain ⟨latest, entered, hplan, _, hinside⟩ := hturn
      exact ⟨.nothing, entered, hplan.2 _, trivial,
        fun inside hentered => (hinside inside hentered).mono hgrows⟩
  | intoAttempt =>
      obtain ⟨latest, entered, hplan, _, hinside⟩ := hturn
      exact ⟨.nothing, entered, hplan.1, trivial, hinside⟩
  | intoCall _ =>
      obtain ⟨closure, ⟨callee, arguments, id, values, rfl, hgiven, _, hfunction, _⟩, hbody⟩ :=
        hturn.beginsCall hkeeps ⟨_, rfl⟩
      refine ⟨.nothing, _, hbody, trivial, ?_⟩
      rintro _ ⟨⟩
      exact ⟨_, _, id, callee, _, rfl, hgiven, hfunction⟩

theorem Reaches.inTurn {first moment : Moment σ} (h : first.Reaches moment)
    (hkeeps : first.Keeps (.ofRules .free)) (hturn : first.InTurn) : moment.InTurn := by
  induction h with
  | refl => exact hturn
  | tail hreaches hleads ih => exact hleads.inTurn (Reaches.keeps hreaches hkeeps) ih

/-! ## Bodies -/

variable {moment next : Moment σ} {visited : Tree σ} {scope : FrameId}

theorem Visits.admits {latest : Latest σ} {entered : Option (Entered σ)}
    (h : moment.Visits visited scope)
    (hplan : moment.rest.InTurn moment.tree moment.context.given latest entered) :
    (moment.tree.turn moment.context.values).Admits visited scope moment.context.given latest
      entered := by
  obtain ⟨next, hrest⟩ := h
  rw [hrest] at hplan
  exact hplan.1

theorem Visits.made {body : Tree σ} {latest : Latest σ} {entered : Option (Entered σ)}
    (h : moment.Visits visited scope)
    (hplan : moment.rest.InTurn moment.tree moment.context.given latest entered)
    (hturn : moment.tree.turn moment.context.values = .body body) :
    visited = body ∧ ∃ outer, latest = .made outer scope := by
  have hadmits := h.admits hplan
  rw [hturn] at hadmits
  exact hadmits

/-- Where it is the turn of the body of a branch or of a round, this is what is visited, in
a frame that the last step made. -/
theorem Leads.body {body : Tree σ} (h : Leads moment next) (hmoment : moment.InTurn)
    (hvisits : next.Visits visited scope)
    (hturn : next.tree.turn next.context.values = .body body) :
    visited = body ∧ ∃ outer, moment.state.enter outer = (scope, next.state) := by
  cases h with
  | perform hresult =>
      obtain ⟨latest, entered, hplan, _⟩ := hmoment
      obtain ⟨rfl, outer, hmade⟩ := hvisits.made (hplan _) hturn
      exact ⟨rfl, outer, Action.enter_of_latest hresult hmade⟩
  | intoTree => exact (Tree.turn_nil_ne_body _ body hturn).elim
  | pastTree _ | pastAttempt _ | pastExit _ | pastCall _ _ =>
      obtain ⟨latest, entered, hplan, _⟩ := hmoment
      obtain ⟨_, _, ⟨⟩⟩ := hvisits.made (hplan.2 _) hturn
  | intoAttempt =>
      obtain ⟨latest, entered, hplan, _⟩ := hmoment
      obtain ⟨_, _, ⟨⟩⟩ := hvisits.made hplan.1 hturn
  | intoCall _ =>
      obtain ⟨latest, entered, ⟨⟨inside, _, hplan⟩, _⟩, _⟩ := hmoment
      obtain ⟨_, _, ⟨⟩⟩ := hvisits.made hplan hturn

/-- Only a tree is visited whose turn it is. -/
theorem InTurn.permits (h : moment.InTurn) (hvisits : moment.Visits visited scope) :
    (moment.tree.turn moment.context.values).Permits visited := by
  obtain ⟨latest, entered, hplan, _⟩ := h
  exact (hvisits.admits hplan).permits

/-- A tree is the body of the function that a value is, and the innermost call is that of
the moment's tree with what its plan was given. -/
def InsideCall (moment : Moment σ) (callee : Value) (body : Tree σ) : Prop :=
  ∃ outer name id closure,
    moment.context.active = ⟨moment.tree, moment.context.given⟩ :: outer ∧
    callee = .function name id ∧ moment.state.function? id = some (.closure closure) ∧
    body = closure.body

/-- Where it is the turn of the body of the function that a callee gave, this is what is
visited, and only inside the call. -/
theorem InTurn.insideCall {callee : Value} (h : moment.InTurn)
    (hvisits : moment.Visits visited scope)
    (hturn : moment.tree.turn moment.context.values = .function callee) :
    moment.InsideCall callee visited := by
  obtain ⟨latest, entered, hplan, _, hinside⟩ := h
  have hadmits := hvisits.admits hplan
  rw [hturn] at hadmits
  obtain ⟨closure, rfl, rfl⟩ := hadmits
  obtain ⟨outer, name, id, tree, others, hactive, hgiven, hfunction⟩ := hinside _ rfl
  obtain ⟨rest, hvalues⟩ := Tree.exists_of_turn_eq_function hturn
  cases (congrArg (List.map Prod.snd) hgiven).symm.trans hvalues
  exact ⟨outer, name, id, closure, hactive, rfl, hfunction, rfl⟩

end Moment

end Script
