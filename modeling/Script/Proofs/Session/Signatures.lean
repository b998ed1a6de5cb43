/-
# Frames are append-only

Whatever is evaluated in a session, and however it ends, every frame keeps the names that
it has, in their places and with their types, and gets new ones only behind them. So a
definition that is made again stays in its place, and the names that every session begins
with stay the first of the global frame.
-/

import Script.Proofs.Eval.Scope
import Script.Proofs.Session.Integrity

namespace Script

open Eval

variable {σ : Type}

/-! ## Heaps that precede others -/

namespace Heap

variable {first second third : Heap} {id : FrameId}

/-- Every frame of a heap is, in a later one, the same up to values and to names behind
those that it has. -/
def Precedes (heap later : Heap) : Prop := ∀ id, heap.signature id <+: later.signature id

theorem Precedes.refl (heap : Heap) : heap.Precedes heap := fun _ => List.prefix_rfl

theorem Precedes.trans (h : first.Precedes second) (h' : second.Precedes third) :
    first.Precedes third := fun id => (h id).trans (h' id)

/-- A binding stays in its place and keeps its name and its type. -/
theorem Precedes.binds (h : first.Precedes second) {slot : Nat} {name : String}
    {binding : Binding} (hbinds : (first.frame id).Binds slot name binding) :
    ∃ value, (second.frame id).Binds slot name ⟨value, binding.declared⟩ := by
  have hslot : (first.signature id)[slot]? = some (name, binding.declared) := by
    rw [signature, Frame.getElem?_signature, hbinds]
    rfl
  have hlater := (List.prefix_iff_getElem?.mp (h id) slot
    (List.getElem?_eq_some_iff.mp hslot).1)
  rw [← List.getElem?_eq_getElem, hslot, signature, Frame.getElem?_signature] at hlater
  obtain ⟨⟨_, found⟩, hfound, heq⟩ := Option.map_eq_some_iff.mp hlater
  obtain ⟨rfl, hdeclared⟩ := Prod.mk.inj heq
  exact ⟨found.value, hdeclared ▸ hfound⟩

/-- The names of the global frame, in their order. -/
def globalNames (heap : Heap) : List String := (heap.signature State.globals).map Prod.fst

theorem Precedes.globalNames (h : first.Precedes second) :
    first.globalNames <+: second.globalNames := (h State.globals).map Prod.fst

end Heap

/-! ## Evaluations -/

namespace Moment

/-- However the evaluation of a tree ends, the heap that it began with precedes the one
that it ends with. -/
theorem precedes_evaluate (budget : Nat) (tree : Tree σ) {scope : FrameId} (state : State σ)
    (hstate : state.store.WellFormed) (hscope : state.store.HasFrame scope) :
    (evaluate budget tree scope state).After fun after => state.heap.Precedes after.heap := by
  have hstart : (start budget tree scope state).Keeps .wellFormed :=
    keeps_start (kept_of_wellFormed hstate) (tree.obeys_free .program) hscope
  have hafter := Outcome.After.forall hstart.prefix_signature
  rwa [start, run_visit] at hafter

/-- A moment that keeps its store well formed leads only to moments with longer frames. -/
theorem Leads.precedes {moment next : Moment σ} (h : Leads moment next)
    (hkeeps : moment.Keeps .wellFormed) : moment.state.heap.Precedes next.state.heap := by
  cases h with
  | perform hresult => exact fun id => (Action.signature_of_run hkeeps.1.sound hresult id).1
  | @pastTree _ budget _ visited scope _ state _ _ _ hdone =>
      obtain ⟨hkept, _, _, hscope, _⟩ := hkeeps
      have hafter := precedes_evaluate budget visited state hkept.sound hscope
      rwa [hdone] at hafter
  | pastAttempt hdone =>
      have hafter := Outcome.After.forall (Leads.keeps .intoAttempt hkeeps).prefix_signature
      rwa [hdone] at hafter
  | pastExit hexit =>
      have hafter := Outcome.After.forall (Leads.keeps .intoAttempt hkeeps).prefix_signature
      rwa [hexit] at hafter
  | pastCall hfew hdone =>
      have hafter := Outcome.After.forall (Leads.keeps (.intoCall hfew) hkeeps).prefix_signature
      rwa [hdone] at hafter
  | intoTree | intoAttempt | intoCall _ => exact .refl _

/-- The heap of a moment precedes that of every moment that is reached from it. -/
theorem Reaches.precedes {first moment : Moment σ} (h : first.Reaches moment)
    (hkeeps : first.Keeps .wellFormed) : first.state.heap.Precedes moment.state.heap := by
  induction h with
  | refl => exact .refl _
  | tail hreaches hleads ih => exact ih.trans (hleads.precedes (Reaches.keeps hreaches hkeeps))

end Moment

/-! ## Sessions -/

namespace Session

/-- The names that every session begins with, in the order in which they are bound. -/
def firstNames : List String := ["true", "false", "nil", "print", "println", "len", "str"]

theorem globalNames_fresh (limit : Option Nat) :
    (Session.fresh limit).heap.globalNames = firstNames := by
  have hheap : (Session.fresh limit).heap = (Session.fresh none).heap := rfl
  rw [hheap]
  decide +kernel

variable {session after : Session}

/-- A run, however it ends, leaves every frame as it was up to values and to names behind
the others. -/
theorem precedes_runTree (hsession : session.Reachable) {budget : Nat} {tree : Tree Span}
    {answer : Except Failure Value}
    (hrun : session.runTree budget tree = some (answer, after)) :
    session.heap.Precedes after.heap := by
  have hwellFormed := hsession.wellFormed
  have hmain : (main budget tree session.state).After
      fun after => session.heap.Precedes after.heap :=
    Moment.precedes_evaluate budget tree { session.state with calls := [] } hwellFormed
      hwellFormed.globals
  obtain ⟨_, hend, _⟩ | ⟨_, hend, _⟩ | ⟨_, hend, _⟩ := runTree_eq_some hrun
  all_goals
    rw [hend] at hmain
    exact hmain

theorem Reachable.firstNames_prefix (h : session.Reachable) :
    firstNames <+: session.heap.globalNames := by
  induction h with
  | fresh limit => exact globalNames_fresh limit ▸ List.prefix_rfl
  | runTree hbefore _ hrun ih => exact ih.trans (precedes_runTree hbefore hrun).globalNames
  | takeOutput _ ih => exact ih

/-- Frames are append-only in every session. Every run, however it ends, and at each of its
moments the evaluation of any tree in any frame, however that ends, leaves in every frame
the names that were there, in their order and with their types, as the first ones; hence
each binding in its place, under its name and its type. The names that a session begins
with are always the first of the global frame. -/
theorem precedes_always (hsession : session.Reachable) :
    firstNames <+: session.heap.globalNames ∧
    (∀ {budget tree answer after}, session.runTree budget tree = some (answer, after) →
      session.heap.Precedes after.heap) ∧
    ∀ {budget tree moment}, (Moment.ofProgram budget tree session.state).Reaches moment →
      session.heap.Precedes moment.state.heap ∧
      firstNames <+: moment.state.heap.globalNames ∧
      ∀ budget node scope, moment.state.store.HasFrame scope →
        (evaluate budget node scope moment.state).After fun after =>
          (∀ id, moment.state.heap.signature id <+: after.heap.signature id) ∧
          ∀ id slot name binding, (moment.state.heap.frame id).Binds slot name binding →
            ∃ value, (after.heap.frame id).Binds slot name ⟨value, binding.declared⟩ := by
  refine ⟨hsession.firstNames_prefix, precedes_runTree hsession, ?_⟩
  intro budget tree moment hreaches
  have hstart : (Moment.ofProgram budget tree session.state).Keeps .wellFormed :=
    Moment.keeps_start (kept_of_wellFormed hsession.wellFormed) (tree.obeys_free .program)
      hsession.wellFormed.globals
  have hprecedes := Moment.Reaches.precedes hreaches hstart
  refine ⟨hprecedes, hsession.firstNames_prefix.trans hprecedes.globalNames, ?_⟩
  intro budget node scope hscope
  have hmoment := (Moment.Reaches.keeps hreaches hstart).1.sound
  exact (Moment.precedes_evaluate budget node moment.state hmoment hscope).imp
    fun hafter => ⟨hafter, fun _ _ _ _ hbinds => Heap.Precedes.binds hafter hbinds⟩

/-- A program that binds a name twice, and fails at the second time. -/
def redeclarationOfOne : Tree Span :=
  .block default
    [.declare default "int" "a" (.number default (.int 1)),
      .declare default "int" "a" (.number default (.int 1))]

theorem precedes_always_of_redeclarationOfOne :
    ∃ answer after, (Session.fresh none).runTree 3 redeclarationOfOne = some (answer, after) ∧
      (Session.fresh none).heap.Precedes after.heap ∧
      firstNames <+: after.heap.globalNames ∧
      (evaluate 3 redeclarationOfOne State.globals (Session.fresh none).state).After fun after =>
        ∃ value, (after.heap.frame State.globals).Binds 0 "true" ⟨value, .boolean⟩ := by
  have hends : ((Session.fresh none).runTree 3 redeclarationOfOne).isSome = true := by
    decide +kernel
  obtain ⟨⟨answer, after⟩, hrun⟩ := Option.isSome_iff_exists.mp hends
  obtain ⟨_, hruns, hmoments⟩ := precedes_always (.fresh none)
  have hafter : after.Reachable := .runTree (.fresh none) trivial hrun
  obtain ⟨hfirst, _, _⟩ := precedes_always hafter
  have hbegins : (Moment.ofProgram 3 redeclarationOfOne (Session.fresh none).state).Reaches _ :=
    .refl
  obtain ⟨_, _, hevaluations⟩ := hmoments hbegins
  refine ⟨answer, after, hrun, hruns hrun, hfirst, ?_⟩
  have hglobals := (State.wellFormed_initial (σ := Span) none).globals
  refine (hevaluations 3 redeclarationOfOne State.globals hglobals).imp ?_
  intro later hlater
  exact hlater.2 State.globals 0 "true" ⟨.boolean true, .boolean⟩ rfl

end Session

end Script
