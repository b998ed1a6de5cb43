/-
# Scopes do not leak

In every session, whatever a body or a call does and however it ends, it adds no name to
the global frame, nor to any frame in which an evaluation runs that has begun before. Of
all frames that were there before, only those of namespaces may get names, and these only
behind the names that they have.
-/

import Script.Proofs.Eval.Scope
import Script.Proofs.Session.Integrity

namespace Script

open Eval

variable {σ : Type}

/-! ## The first store -/

namespace State

variable {state : State σ} {id : FrameId}

theorem private_blank (limit : Option Nat) : (blank limit : State σ).store.Private id := by
  intro other slot name binding hbinds
  have hframe : (blank limit : State σ).store.heap.frame other = .empty none := by
    change (Heap.empty.push none).2.frame other = .empty none
    rw [Heap.frame_push]
    split
    · rfl
    · rfl
  rw [hframe] at hbinds
  exact (Frame.not_binds_empty hbinds).elim

theorem private_defineGlobal {name : String} {value : Value} (h : state.store.Private id)
    (hvalue : value.Avoids id) : (state.defineGlobal name value).store.Private id :=
  h.insert hvalue

theorem private_defineNatives {natives : List Native} (h : state.store.Private id) :
    (natives.foldl defineNative state).store.Private id := by
  induction natives generalizing state with
  | nil => exact h
  | cons native natives ih =>
      have hpush : (state.pushFunction (.native native)).2.store.Private id := h
      have hnative : (state.defineNative native).store.Private id := hpush.insert trivial
      exact ih hnative

/-- No frame is that of a namespace in the beginning. -/
theorem private_initial (limit : Option Nat) : (initial limit : State σ).store.Private id := by
  rw [initial]
  apply private_defineNatives
  refine private_defineGlobal ?_ trivial
  refine private_defineGlobal ?_ trivial
  refine private_defineGlobal ?_ trivial
  exact private_blank limit

end State

/-! ## Names -/

/-- How names may change until a later state: every frame keeps its names in their order
and with their types and gets new ones only behind them, and a frame gets none that was
there before if no binding and no given value holds a namespace of it. -/
structure State.KeepsNames (before after : State σ) (given : List Value) : Prop where
  behind : ∀ id, before.heap.signature id <+: after.heap.signature id
  same : ∀ id, before.store.HasFrame id → before.store.Private id →
    (∀ value ∈ given, value.Avoids id) → after.heap.signature id = before.heap.signature id

/-- A frame that was just made binds nothing, and is none of those that were there. -/
theorem State.enter_frame {older state : State σ} {outer scope id : FrameId}
    (h : older.enter outer = (scope, state)) (hid : older.store.HasFrame id) : scope ≠ id := by
  cases h
  rintro rfl
  exact Nat.lt_irrefl _ hid

theorem State.enter_signature {older state : State σ} {outer scope : FrameId}
    (h : older.enter outer = (scope, state)) (id : FrameId) :
    state.heap.signature id = older.heap.signature id := by
  cases h
  exact Heap.signature_push

theorem State.enter_kept {older state : State σ} {outer scope id : FrameId}
    (h : older.enter outer = (scope, state)) (hid : older.store.HasFrame id)
    (hprivate : older.store.Private id) : (Discipline.keepsPrivate id).Kept state.store := by
  cases h
  exact kept_keepsPrivate (hid.mono (.pushFrame _ _)) hprivate.pushFrame

namespace Moment

variable {moment first : Moment σ} {given : List Value}

/-! ## Frames that are made for bodies -/

/-- The frame in which a body is visited was made behind every moment at which a plan was
given nothing yet. -/
theorem Reaches.scope_ne {id scope : FrameId} {visited body : Tree σ}
    (h : first.Reaches moment) (hgiven : first.context.given = []) (hturn : first.InTurn)
    (hfree : first.Keeps (.ofRules .free)) (hkeeps : first.Keeps (.keepsPrivate id))
    (hvisits : moment.Visits visited scope)
    (hbody : moment.tree.turn moment.context.values = .body body) : scope ≠ id := by
  cases h with
  | refl =>
      rw [Context.values, hgiven] at hbody
      exact (Tree.turn_nil_ne_body _ _ hbody).elim
  | tail hreaches hleads =>
      obtain ⟨_, outer, henter⟩ :=
        hleads.body (Reaches.inTurn hreaches hfree hturn) hvisits hbody
      exact State.enter_frame henter (Reaches.keeps hreaches hkeeps).1.sound.1

theorem Encloses.scope_ne {enclosing scope : FrameId} {visited body : Tree σ}
    (h : first.Encloses moment enclosing) (hfirst : first.Secluded)
    (hvisits : moment.Visits visited scope)
    (hbody : moment.tree.turn moment.context.values = .body body) : scope ≠ enclosing := by
  obtain ⟨hvisit, hreaches⟩ := h
  have hkept := (Reaches.secluded hvisit hfirst).kept_visited
  exact Reaches.scope_ne hreaches rfl inTurn_of_step
    (keeps_step (kept_free _) (Tree.obeys_free .program _) trivial)
    (keeps_step hkept (Tree.obeys_free .program _) trivial) hvisits hbody

/-! ## What happens in a scope of its own -/

/-- What is done in a scope of its own at a moment behind another leaves names as they are:
those of the global frame and of all frames in which evaluations run that have begun and not
ended, and those of all frames that were there but of namespaces. -/
structure Confines (first moment : Moment σ) (before : State σ) (given : List Value)
    (after : State σ) : Prop where
  names : before.KeepsNames after given
  globals : after.heap.signature State.globals = before.heap.signature State.globals
  enclosing : ∀ scope, first.Encloses moment scope →
    after.heap.signature scope = before.heap.signature scope

/-- A part of a plan is confined if it stays apart from the frames in question. -/
theorem confines_of_apart {part : Moment σ} {before : State σ}
    (hbefore : ∀ id, part.state.heap.signature id = before.heap.signature id)
    (hwellFormed : part.Keeps .wellFormed)
    (hnames : ∀ id, before.store.HasFrame id → before.store.Private id →
      (∀ value ∈ given, value.Avoids id) → part.Apart id)
    (hglobals : part.Apart State.globals)
    (henclosing : ∀ scope, first.Encloses moment scope → part.Apart scope) :
    (part.rest.run (evaluate part.budget) part.state).After
      fun after => first.Confines moment before given after := by
  have hsame {id : FrameId} (hapart : part.Apart id) :
      (part.rest.run (evaluate part.budget) part.state).After fun after =>
        after.heap.signature id = before.heap.signature id :=
    hapart.signature_eq.imp fun heq => heq.trans (hbefore id)
  have hbehind : (part.rest.run (evaluate part.budget) part.state).After fun after =>
      ∀ id, before.heap.signature id <+: after.heap.signature id :=
    .forall fun id => (hwellFormed.prefix_signature id).imp fun h => hbefore id ▸ h
  have hprivate : (part.rest.run (evaluate part.budget) part.state).After fun after =>
      ∀ id, before.store.HasFrame id → before.store.Private id →
        (∀ value ∈ given, value.Avoids id) →
        after.heap.signature id = before.heap.signature id :=
    .forall fun id => .imp_of fun hid => .imp_of fun hprivate => .imp_of fun hgiven =>
      hsame (hnames id hid hprivate hgiven)
  have hscopes : (part.rest.run (evaluate part.budget) part.state).After fun after =>
      ∀ scope, first.Encloses moment scope →
        after.heap.signature scope = before.heap.signature scope :=
    .forall fun scope => .imp_of fun hencloses => hsame (henclosing scope hencloses)
  refine ((hbehind.and hprivate).and ((hsame hglobals).and hscopes)).imp ?_
  rintro after ⟨⟨hbehind, hprivate⟩, hglobals, hscopes⟩
  exact ⟨⟨hbehind, hprivate⟩, hglobals, hscopes⟩

end Moment

namespace Session

theorem begins_keepsPrivate : Begins (.keepsPrivate State.globals) where
  kept limit :=
    kept_keepsPrivate (State.wellFormed_initial limit).globals (State.private_initial limit)
  globals _ := trivial

section OfProgram

variable {session : Session} (hsession : session.Reachable) (budget : Nat) (tree : Tree Span)

include hsession

theorem keeps_wellFormed_ofProgram :
    (Moment.ofProgram budget tree session.state).Keeps .wellFormed :=
  Moment.keeps_start (kept_of_wellFormed hsession.wellFormed) (tree.obeys_free .program)
    hsession.wellFormed.globals

theorem keeps_private_ofProgram :
    (Moment.ofProgram budget tree session.state).Keeps (.keepsPrivate State.globals) :=
  Moment.keeps_start (hsession.kept begins_keepsPrivate fun tree _ => tree.obeys_free .program).1
    (tree.obeys_free .program) trivial

theorem secluded_ofProgram : (Moment.ofProgram budget tree session.state).Secluded :=
  ⟨keeps_wellFormed_ofProgram hsession budget tree, State.globals, none, within_visit trivial,
    keeps_private_ofProgram hsession budget tree, nofun⟩

end OfProgram

variable {session : Session} {budget : Nat} {tree : Tree Span} {moment : Moment Span}

/-- The body of a branch or of a round is evaluated in a frame made for it, and confined. -/
theorem confines_body (hsession : session.Reachable)
    (hreaches : (Moment.ofProgram budget tree session.state).Reaches moment)
    {visited body : Tree Span} {scope : FrameId} (hvisits : moment.Visits visited scope)
    (hbody : moment.tree.turn moment.context.values = .body body) :
    visited = body ∧ ∃ (older : State Span) (outer : FrameId),
      older.enter outer = (scope, moment.state) ∧
      (evaluate moment.budget body scope moment.state).After
        ((Moment.ofProgram budget tree session.state).Confines moment older []) := by
  obtain rfl | ⟨before, hbefore, hleads⟩ := hreaches.cases_tail
  · exact (Tree.turn_nil_ne_body _ _ hbody).elim
  obtain ⟨rfl, outer, henter⟩ :=
    hleads.body (Moment.inTurn_of_ofProgram hbefore) hvisits hbody
  have hglobals := keeps_private_ofProgram hsession budget tree
  have hsecluded := secluded_ofProgram hsession budget tree
  let part := moment.part (visit visited scope)
  have hpart : part.Keeps .wellFormed :=
    hvisits.keeps (Moment.Reaches.keeps hreaches (keeps_wellFormed_ofProgram hsession budget tree))
  have hconfines : (part.rest.run (evaluate part.budget) part.state).After
      ((Moment.ofProgram budget tree session.state).Confines moment before.state []) := by
    refine Moment.confines_of_apart (State.enter_signature henter) hpart ?_ ?_ ?_
    · intro id hid hprivate _
      exact Moment.apart_visit hpart (State.enter_kept henter hid hprivate)
        (State.enter_frame henter hid)
    · refine Moment.apart_visit hpart (Moment.Reaches.keeps hreaches hglobals).1 ?_
      exact Moment.Reaches.scope_ne hreaches rfl (Moment.inTurn_start _ _ _ _)
        Moment.keeps_free_ofProgram hglobals hvisits hbody
    · intro enclosing hencloses
      exact Moment.apart_visit hpart (hencloses.keeps hsecluded).1
        (hencloses.scope_ne hsecluded hvisits hbody)
  change ((visit visited scope).run (evaluate moment.budget) moment.state).After _ at hconfines
  rw [run_visit] at hconfines
  exact ⟨rfl, before.state, outer, henter, hconfines⟩

/-- A call is confined, but for the frames of namespaces that it is given. -/
theorem confines_call (hsession : session.Reachable)
    (hreaches : (Moment.ofProgram budget tree session.state).Reaches moment)
    {β : Type} {call : Call Span} {body : Eval Span β} (hcalls : moment.Calls call body) :
    ((withCall call body).run (evaluate moment.budget) moment.state).After
      ((Moment.ofProgram budget tree session.state).Confines moment moment.state
        moment.context.values) := by
  obtain ⟨closure, ⟨callee, arguments, id, values, htree, hgiven, hlength, _, hinvokes⟩, _⟩ :=
    (Moment.inTurn_of_ofProgram hreaches).beginsCall
      (Moment.Reaches.keeps hreaches Moment.keeps_free_ofProgram) hcalls
  have hglobals := keeps_private_ofProgram hsession budget tree
  have hsecluded := secluded_ofProgram hsession budget tree
  let part := moment.part (withCall call body)
  have hpart : part.Keeps .wellFormed :=
    hcalls.keeps (Moment.Reaches.keeps hreaches (keeps_wellFormed_ofProgram hsession budget tree))
  have hconfines : (part.rest.run (evaluate part.budget) part.state).After
      ((Moment.ofProgram budget tree session.state).Confines moment moment.state
        moment.context.values) := by
    refine Moment.confines_of_apart (fun _ => rfl) hpart ?_ ?_ ?_
    · intro id hid hprivate havoid
      rw [Context.values_eq hgiven hlength, List.forall_mem_cons] at havoid
      have hkeeps : part.Keeps (.keepsPrivate id) :=
        Moment.keeps_withCall htree hinvokes (kept_keepsPrivate hid hprivate) havoid.2
      exact Moment.apart_withCall hpart hkeeps hinvokes
    · have hkeeps := hcalls.keeps (Moment.Reaches.keeps hreaches hglobals)
      exact Moment.apart_withCall hpart hkeeps hinvokes
    · intro enclosing hencloses
      have hkeeps := hcalls.keeps (hencloses.keeps hsecluded)
      exact Moment.apart_withCall hpart hkeeps hinvokes
  exact hconfines

/-- Scopes do not leak. At every moment of every program, whatever session it runs in: where
it is the turn of the body of a branch or of a round of a loop, this is what is visited, in
a frame that was made for it, and however it ends, it is confined; and however a call ends,
it is confined, but for frames of which it is given namespaces. Only a tree is visited whose
turn it is, and the body of a function only inside a call. -/
theorem scopes_confined (hsession : session.Reachable)
    (hreaches : (Moment.ofProgram budget tree session.state).Reaches moment) :
    (∀ visited scope body, moment.Visits visited scope →
      moment.tree.turn moment.context.values = .body body →
      visited = body ∧ ∃ (older : State Span) (outer : FrameId),
        older.enter outer = (scope, moment.state) ∧
        (evaluate moment.budget body scope moment.state).After
          ((Moment.ofProgram budget tree session.state).Confines moment older [])) ∧
    (∀ {β : Type} (call : Call Span) (body : Eval Span β), moment.Calls call body →
      ((withCall call body).run (evaluate moment.budget) moment.state).After
        ((Moment.ofProgram budget tree session.state).Confines moment moment.state
          moment.context.values)) ∧
    ∀ visited scope, moment.Visits visited scope →
      (moment.tree.turn moment.context.values).Permits visited ∧
      ∀ callee, moment.tree.turn moment.context.values = .function callee →
        moment.InsideCall callee visited := by
  have hturn := Moment.inTurn_of_ofProgram hreaches
  refine ⟨fun _ _ _ hvisits hbody => confines_body hsession hreaches hvisits hbody,
    fun _ _ hcalls => confines_call hsession hreaches hcalls, fun visited scope hvisits => ?_⟩
  exact ⟨hturn.permits hvisits, fun callee => hturn.insideCall hvisits⟩

/-- A body that declares a name and is left early. -/
def declarationAndExit (exit : Tree Span) : Tree Span :=
  .block default [.declare default "int" "a" (.number default (.int 1)), exit]

/-- In a run of a tree a body is left early, with a name in its frame, and was confined. -/
def LeavesEarly (tree body : Tree Span) : Prop :=
  ∃ moment scope older exit after,
    (Moment.ofProgram 4 tree (Session.fresh none).state).Reaches moment ∧
    moment.Visits body scope ∧
    evaluate moment.budget body scope moment.state = .interrupted (.exit exit) after ∧
    after.heap.signature scope = [("a", .int)] ∧
    (Moment.ofProgram 4 tree (Session.fresh none).state).Confines moment older [] after

theorem leavesEarly_of_after {tree body : Tree Span} {scope outer : FrameId} {exit : Exit Span}
    {older after : State Span}
    (hreaches : (Moment.ofProgram 4 tree (Session.fresh none).state).Reaches moment)
    (hvisits : moment.Visits body scope)
    (hleft : evaluate moment.budget body scope moment.state = .interrupted (.exit exit) after)
    (hname : after.heap.signature scope = [("a", .int)])
    (hconfines : older.enter outer = (scope, moment.state) ∧
      (evaluate moment.budget body scope moment.state).After
        ((Moment.ofProgram 4 tree (Session.fresh none).state).Confines moment older [])) :
    LeavesEarly tree body := by
  rw [hleft] at hconfines
  exact ⟨moment, scope, older, exit, after, hreaches, hvisits, hleft, hname, hconfines.2⟩

/-- In a run of a tree a call fails, with a name in its frame, and was confined. -/
def FailsInCall (tree : Tree Span) : Prop :=
  ∃ moment call, ∃ body : Eval Span Value, ∃ error after,
    (Moment.ofProgram 4 tree (Session.fresh none).state).Reaches moment ∧
    moment.Calls call body ∧
    (withCall call body).run (evaluate moment.budget) moment.state =
      .interrupted (.error error) after ∧
    after.heap.signature ⟨1⟩ = [("a", .int)] ∧
    (Moment.ofProgram 4 tree (Session.fresh none).state).Confines moment moment.state
      moment.context.values after

/-- A function that divides its argument by zero, and its call. -/
def callOfDivision : Tree Span :=
  .call default (.functionDef default "int" "f" [⟨default, "int", "a"⟩] true
    (.binary default .divide (.identifier default "a") (.number default (.int 0))))
    [.number default (.int 1)]

/-- The round of a loop that it breaks, the body of an else that returns, and a call that
fails. -/
theorem scopes_confined_of_early_exits :
    LeavesEarly (.whileLoop default (.number default (.int 1))
      (declarationAndExit (.breakLoop default))) (declarationAndExit (.breakLoop default)) ∧
    LeavesEarly (.conditional default (.number default (.int 0)) (.block default [])
      (.otherwise (declarationAndExit (.returnNothing default))))
      (declarationAndExit (.returnNothing default)) ∧
    FailsInCall callOfDivision := by
  have hfresh : (Session.fresh none).Reachable := .fresh none
  refine ⟨?loop, ?choice, ?call⟩
  case loop =>
    let body := declarationAndExit (.breakLoop default)
    let tree : Tree Span := .whileLoop default (.number default (.int 1)) body
    let first := Moment.ofProgram 4 tree (Session.fresh none).state
    let inner := State.enter State.globals first.state
    obtain ⟨context, hreaches, hturn⟩ : ∃ context,
        first.Reaches ⟨3, tree, visit body inner.1, context, inner.2⟩ ∧
        tree.turn context.values = .body body :=
      ⟨_, .head .intoTree (.head (.pastTree rfl) (.head .intoAttempt
        (.head (.perform rfl) .refl))), rfl⟩
    obtain ⟨after, hleft, hname⟩ : ∃ after,
        evaluate 3 body inner.1 inner.2 = .interrupted (.exit (.breaking default)) after ∧
        after.heap.signature inner.1 = [("a", .int)] := ⟨_, rfl, by decide +kernel⟩
    obtain ⟨-, older, outer, hconfines⟩ :=
      (scopes_confined hfresh hreaches).1 body inner.1 body ⟨_, rfl⟩ hturn
    exact leavesEarly_of_after hreaches ⟨_, rfl⟩ hleft hname hconfines
  case choice =>
    let body := declarationAndExit (.returnNothing default)
    let tree : Tree Span :=
      .conditional default (.number default (.int 0)) (.block default []) (.otherwise body)
    let first := Moment.ofProgram 4 tree (Session.fresh none).state
    let inner := State.enter State.globals first.state
    obtain ⟨context, hreaches, hturn⟩ : ∃ context,
        first.Reaches ⟨3, tree, visit body inner.1, context, inner.2⟩ ∧
        tree.turn context.values = .body body :=
      ⟨_, .head .intoTree (.head (.pastTree rfl) (.head (.perform rfl) .refl)), rfl⟩
    obtain ⟨after, hleft, hname⟩ : ∃ after,
        evaluate 3 body inner.1 inner.2 = .interrupted (.exit (.returned .nil default)) after ∧
        after.heap.signature inner.1 = [("a", .int)] := ⟨_, rfl, by decide +kernel⟩
    obtain ⟨-, older, outer, hconfines⟩ :=
      (scopes_confined hfresh hreaches).1 body inner.1 body ⟨_, rfl⟩ hturn
    exact leavesEarly_of_after hreaches ⟨_, rfl⟩ hleft hname hconfines
  case call =>
    let first := Moment.ofProgram 4 callOfDivision (Session.fresh none).state
    obtain ⟨call, body, moment, hreaches, hcalls, error, after, hfails, hname⟩ :
        ∃ call, ∃ body : Eval Span Value, ∃ moment, first.Reaches moment ∧
          moment.Calls call body ∧ ∃ error after,
          (withCall call body).run (evaluate moment.budget) moment.state =
            .interrupted (.error error) after ∧
          after.heap.signature ⟨1⟩ = [("a", .int)] :=
      ⟨_, _, _, .head .intoTree (.head (.pastTree rfl) (.head (.pastTree rfl)
        (.head (.perform rfl) .refl))), ⟨_, rfl⟩, _, _, rfl, by decide +kernel⟩
    have hconfines := (scopes_confined hfresh hreaches).2.1 call body hcalls
    rw [hfails] at hconfines
    exact ⟨moment, call, body, error, after, hreaches, hcalls, hfails, hname, hconfines⟩

end Session

end Script
