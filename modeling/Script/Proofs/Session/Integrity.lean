/-
# Sessions keep their stores well formed

Every session begins with a well formed store, and whatever programs it runs, and
however they end, the store stays well formed at every moment. What code visits and
what it gets refers only to frames and functions that exist.
-/

import Script.Proofs.Eval.Calls
import Script.Proofs.Eval.Result
import Script.Proofs.Eval.WellFormed
import Script.Proofs.Session.History

namespace Script

open Eval

variable {σ : Type}

/-! ## The first store -/

namespace State

variable {state : State σ}

theorem wellFormed_blank (limit : Option Nat) : (blank limit : State σ).store.WellFormed := by
  refine ⟨?_, Nat.zero_lt_one, ?_⟩
  · intro index frame hframe
    change (#[].push (Frame.empty none))[index]? = some frame at hframe
    rw [Array.getElem?_push] at hframe
    split at hframe
    · next hzero =>
      cases hframe
      exact .empty hzero
    · cases hframe
  · intro id closure hclosure
    cases hclosure

theorem wellFormed_defineGlobal {name : String} {value : Value} (h : state.store.WellFormed)
    (hrefers : state.store.Refers value) : (state.defineGlobal name value).store.WellFormed :=
  h.define hrefers

theorem wellFormed_defineNative {native : Native} (h : state.store.WellFormed) :
    (state.defineNative native).store.WellFormed := by
  have hpush : (state.store.pushFunction (.native native)).WellFormed := h.pushFunction nofun
  exact hpush.define (Store.hasFunction_pushFunction state.store (.native native))

theorem wellFormed_defineNatives {natives : List Native} (h : state.store.WellFormed) :
    (natives.foldl defineNative state).store.WellFormed := by
  induction natives generalizing state with
  | nil => exact h
  | cons native natives ih => exact ih (wellFormed_defineNative h)

theorem wellFormed_initial (limit : Option Nat) : (initial limit : State σ).store.WellFormed := by
  rw [initial]
  apply wellFormed_defineNatives
  refine wellFormed_defineGlobal ?_ trivial
  refine wellFormed_defineGlobal ?_ trivial
  refine wellFormed_defineGlobal ?_ trivial
  exact wellFormed_blank limit

end State

/-! ## Moments -/

/-- An evaluation ends in a well formed store, and the value that it gives or returns
refers only to what exists there. -/
def Outcome.WellFormed (outcome : Outcome σ Value) : Prop :=
  match outcome with
  | .done value state | .interrupted (.exit (.returned value _)) state =>
    state.store.WellFormed ∧ state.store.Refers value
  | .interrupted _ state => state.store.WellFormed
  | .exhausted => True

theorem wellFormed_of_keeps {outcome : Outcome σ Value} {before : Store σ}
    {enclosure : Enclosure}
    (h : outcome.Keeps Discipline.wellFormed before (Discipline.wellFormed.Exits enclosure)
      fun value after => after.Refers value) : outcome.WellFormed := by
  cases outcome with
  | done value state => exact ⟨h.1.sound, h.2.2⟩
  | exhausted => trivial
  | interrupted interrupt state =>
      cases interrupt with
      | error error => exact h.1.sound
      | exit exit =>
          cases exit with
          | returned value site => exact ⟨h.1.sound, h.2.2.2.2⟩
          | breaking site | continuing site => exact h.1.sound

/-- The store is well formed at a moment, and so is what comes of the tree that is visited
next, if one is. -/
structure Moment.WellFormed (moment : Moment σ) : Prop where
  store : moment.state.store.WellFormed
  visits : ∀ {visited : Tree σ} {scope : FrameId} {next : Value → Eval σ moment.α},
    moment.rest = .visiting visited scope next →
    moment.state.store.HasFrame scope ∧
      (evaluate moment.budget visited scope moment.state).WellFormed

theorem Moment.Keeps.wellFormed {moment : Moment σ}
    (h : moment.Keeps Discipline.wellFormed) : moment.WellFormed := by
  obtain ⟨hkept, onExit, onValue, hsafe⟩ := h
  refine ⟨hkept.sound, ?_⟩
  intro visited scope next hrest
  rw [hrest] at hsafe
  obtain ⟨hscope, enclosure, hobeys, _, _⟩ := hsafe
  exact ⟨hscope, wellFormed_of_keeps (Discipline.wellFormed.evaluate _ hkept hobeys hscope)⟩

theorem kept_of_wellFormed {store : Store σ} (h : store.WellFormed) :
    Discipline.wellFormed.Kept store :=
  ⟨h, fun _ => Tree.obeys_free .function _⟩

/-- Every moment of a program that begins with a well formed store is well formed. -/
theorem Moment.wellFormed_of_reaches {budget : Nat} {tree : Tree σ} {state : State σ}
    {moment : Moment σ} (hstate : state.store.WellFormed)
    (hreaches : (ofProgram budget tree state).Reaches moment) : moment.WellFormed := by
  have hstart : (ofProgram budget tree state).Keeps Discipline.wellFormed :=
    keeps_start (kept_of_wellFormed hstate) (tree.obeys_free .program) hstate.globals
  exact (Reaches.keeps hreaches hstart).wellFormed

/-! ## Sessions -/

namespace Session

theorem begins_wellFormed : Begins Discipline.wellFormed where
  kept limit := kept_of_wellFormed (State.wellFormed_initial limit)
  globals limit := (State.wellFormed_initial limit).globals

theorem Reachable.wellFormed {session : Session} (h : session.Reachable) :
    session.state.store.WellFormed :=
  (RunsOnly.kept begins_wellFormed (fun tree _ => tree.obeys_free .program) h).1.sound

/-- In every session that any programs led to, and at every moment of every further
program, the store is well formed, and whatever is visited or got refers to what exists.
In a well formed store the names in each frame differ and lookups follow paths that end
at the global frame. A call that gives a value called a function; if that was defined,
the value is nil or one that the declared return type accepts. -/
theorem wellFormed_always :
    (∀ session : Session, session.Reachable →
      session.state.store.WellFormed ∧
      ∀ budget tree moment, (Moment.ofProgram budget tree session.state).Reaches moment →
        moment.WellFormed) ∧
    (∀ store : Store Span, store.WellFormed → ∀ id, store.HasFrame id →
      ((store.heap.frame id).bindings.map Prod.fst).Nodup ∧
        ∃ path, store.heap.LookupPath id path) ∧
    ∀ (budget : Nat) (site : Span) (callee : Tree Span) (arguments : List (Tree Span))
      (scope : FrameId) (state after : State Span) (value : Value),
      evaluate (budget + 1) (.call site callee arguments) scope state = .done value after →
      ∃ name id middle function,
        evaluate budget callee scope state = .done (.function name id) middle ∧
        after.function? id = some function ∧
        ∀ closure, function = .closure closure →
          value.isNil = true ∨ closure.returnType.accepts value = true := by
  refine ⟨?_, ?_, ?_⟩
  · intro session hsession
    have hstore := hsession.wellFormed
    exact ⟨hstore, fun _ _ _ hreaches => Moment.wellFormed_of_reaches hstore hreaches⟩
  · intro store hstore id hid
    exact ⟨(hstore.frame hid).indexed.names_nodup, hstore.linked.exists_lookupPath hid⟩
  · intro budget site callee arguments scope state after value hcall
    exact exists_function_of_call hcall

/-- A call of a function that gives one. -/
def callOfOne : Tree Span :=
  .call default (.functionDef default "int" "one" [] true (.number default (.int 1))) []

theorem wellFormed_always_of_callOfOne :
    (Session.fresh none).Reachable ∧
    (Moment.ofProgram 4 callOfOne (Session.fresh none).state).WellFormed ∧
    (∃ path, (Session.fresh none).heap.LookupPath State.globals path) ∧
    ∃ after, evaluate 4 callOfOne State.globals (Session.fresh none).state =
        .done (.number (.int 1)) after ∧
      ∃ id function, after.function? id = some function ∧
        ∀ closure, function = .closure closure →
          (Value.number (.int 1)).isNil = true ∨
            closure.returnType.accepts (.number (.int 1)) = true := by
  obtain ⟨hsessions, hstores, hcalls⟩ := wellFormed_always
  have hfresh : (Session.fresh none).Reachable := .fresh none
  obtain ⟨hstore, hmoments⟩ := hsessions _ hfresh
  refine ⟨hfresh, hmoments 4 callOfOne _ .refl, (hstores _ hstore _ hstore.globals).2, ?_⟩
  obtain ⟨after, hdone⟩ : ∃ after, evaluate 4 callOfOne State.globals (Session.fresh none).state =
      .done (.number (.int 1)) after := ⟨_, rfl⟩
  obtain ⟨_, id, _, function, _, hfunction⟩ := hcalls 3 _ _ _ _ _ _ _ hdone
  exact ⟨after, hdone, id, function, hfunction⟩

end Session

end Script
