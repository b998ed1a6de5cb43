/-
# The scopes of an evaluation

An evaluation adds names to three kinds of frames: to those in which it evaluates trees,
to those that it has just made, and to those of namespaces. A body or a call is evaluated
in a frame of its own, so a frame that was there before gets no name, unless it is that
of a namespace, and then only behind those that it has. The frames in which evaluations
run that have begun and not ended are private, hence not among these.
-/

import Script.Proofs.Eval.Course
import Script.Proofs.Eval.Private
import Script.Proofs.Eval.Within
import Script.Proofs.Heap.Signature

namespace Script

variable {σ α β : Type}

/-! ## Actions -/

theorem Store.WellFormed.indexed {store : Store σ} (h : store.WellFormed) (id : FrameId) :
    (store.heap.frame id).Indexed := by
  cases hframe : store.heap.frames[id.index]? with
  | none =>
      rw [Heap.frame, hframe]
      exact Frame.indexed_empty
  | some frame =>
      rw [Heap.frame_eq_of_getElem? hframe]
      exact (h.frames hframe).indexed

/-- The frame to which an action may add a name. -/
def Action.AddsTo : Action σ α → FrameId → Prop
  | .declare _ scope .., id | .bindDefinition _ scope .., id => scope = id
  | .setMember _ frame .., id => frame = id
  | _, _ => False

/-- An action adds names only at the end, and only to the frame that it names. -/
theorem Action.signature_of_run {action : Action σ α} {state after : State σ} {result : α}
    (hstate : state.store.WellFormed) (hrun : action.run state = (.ok result, after))
    (id : FrameId) :
    state.heap.signature id <+: after.heap.signature id ∧
      (¬ action.AddsTo id → after.heap.signature id = state.heap.signature id) := by
  cases action with
  | lookup site scope name | element site object key | apply site operator left right =>
      obtain ⟨_, rfl⟩ := State.answer_eq_ok_iff.mp hrun
      exact ⟨List.prefix_rfl, fun _ => rfl⟩
  | member frame name | display value | length? value | function? id | pushFunction function =>
      cases hrun
      exact ⟨List.prefix_rfl, fun _ => rfl⟩
  | write site text =>
      rw [run] at hrun
      obtain ⟨_, rfl⟩ := State.write_eq_ok_iff.mp hrun
      exact ⟨List.prefix_rfl, fun _ => rfl⟩
  | raise fault site => cases result
  | enter scope =>
      cases hrun
      have hsame : (state.heap.push (some scope)).2.signature id = state.heap.signature id :=
        Heap.signature_push
      exact ⟨hsame ▸ List.prefix_rfl, fun _ => hsame⟩
  | declare site scope name declared value =>
      rw [run] at hrun
      obtain ⟨_, hheap, rfl⟩ := State.changeHeap_eq_ok_iff.mp hrun
      obtain ⟨hfree, _, rfl⟩ := Heap.declare_eq_ok_iff.mp hheap
      refine ⟨Heap.prefix_signature_insert (hstate.indexed scope) ?_, Heap.signature_insert_of_ne⟩
      intro old hold
      rw [Heap.binding?, hfree] at hold
      cases hold
  | assign site scope name value =>
      rw [run] at hrun
      obtain ⟨_, hheap, rfl⟩ := State.changeHeap_eq_ok_iff.mp hrun
      obtain ⟨_, _, _, _, rfl⟩ := Heap.assign_eq_ok_iff.mp hheap
      exact ⟨Heap.signature_setValue ▸ List.prefix_rfl, fun _ => Heap.signature_setValue⟩
  | setMember site frame name value =>
      rw [run] at hrun
      obtain ⟨_, hheap, rfl⟩ := State.changeHeap_eq_ok_iff.mp hrun
      obtain ⟨hfree, rfl⟩ | ⟨_, _, _, rfl⟩ := Heap.setLocal_eq_ok_iff.mp hheap
      · refine ⟨Heap.prefix_signature_insert (hstate.indexed frame) ?_,
          Heap.signature_insert_of_ne⟩
        intro old hold
        rw [Heap.binding?, Frame.binding?, hfree] at hold
        cases hold
      · exact ⟨Heap.signature_setValue ▸ List.prefix_rfl, fun _ => Heap.signature_setValue⟩
  | bindDefinition site scope name value =>
      rw [run] at hrun
      obtain ⟨_, hheap, rfl⟩ := State.changeHeap_eq_ok_iff.mp hrun
      obtain ⟨hsame, rfl⟩ := Heap.bindDefinition_eq_ok_iff.mp hheap
      exact ⟨Heap.prefix_signature_insert (hstate.indexed scope) hsame,
        Heap.signature_insert_of_ne⟩

/-- However an action ends, it adds names only at the end, and only to the frame that it
names. -/
theorem Action.signature_of_end {action : Action σ α} {state : State σ}
    (hstate : state.store.WellFormed) (id : FrameId) :
    state.heap.signature id <+: (action.run state).2.heap.signature id ∧
      (¬ action.AddsTo id →
        (action.run state).2.heap.signature id = state.heap.signature id) := by
  cases hrun : action.run state with
  | mk result after =>
      cases result with
      | ok value => exact signature_of_run hstate hrun id
      | error error =>
          rw [(run_eq_error hrun).1]
          exact ⟨List.prefix_rfl, fun _ => rfl⟩

namespace Eval

/-! ## Plans -/

/-- What a plan is about to declare in a frame that it has just made refers to what exists
when the plan is safe. -/
theorem Within.refers_pending {home inner : FrameId} {values : List Value} {plan : Eval σ α}
    {whole : Tree σ} {store : Store σ} {onExit : Exit σ → Store σ → Prop}
    {onValue : α → Store σ → Prop} (h : plan.Within home .free (some ⟨inner, values⟩))
    (hkept : Discipline.wellFormed.Kept store)
    (hsafe : plan.Safe .wellFormed whole onExit store onValue) :
    ∀ value ∈ values, store.Refers value := by
  induction plan generalizing values onExit with
  | give value | leave exit => cases h
  | exhausted => cases h.1
  | perform action next ih =>
      cases action with
      | declare site scope name declared value =>
          obtain ⟨_, others, hpending, hrest⟩ := h
          obtain ⟨⟨_, _, hvalue⟩, hnext⟩ := hsafe
          have hothers := ih () hrest (hnext () store hkept (.refl store) trivial)
          cases hpending
          exact List.forall_mem_cons.mpr ⟨hvalue, hothers⟩
      | pushFunction function =>
          cases function with
          | native native => exact h.elim
          | closure closure => cases h.1
      | _ => cases h.1
  | visiting tree scope next _ =>
      obtain ⟨_, _, hpending, _⟩ := h
      cases hpending _ rfl
      exact List.forall_mem_nil _
  | attempting body next ihBody _ => exact ihBody h.1 hsafe
  | calling call body next _ _ => cases h.1

/-- How a plan goes on behind an action: at home, in a frame that the action has made, or
in the frame that was made before with one value declared there. -/
theorem Within.cases_of_run {home : FrameId} {opened : Option Opened} {action : Action σ β}
    {next : β → Eval σ α} {whole : Tree σ} {onExit : Exit σ → Store σ → Prop}
    {onValue : α → Store σ → Prop} {state after : State σ} {result : β}
    (h : (perform action next).Within home .free opened)
    (hkept : Discipline.wellFormed.Kept state.store)
    (hsafe : (perform action next).Safe .wellFormed whole onExit state.store onValue)
    (hrun : action.run state = (.ok result, after)) :
    (next result).Within home .free none ∨
    (∃ scope values, after.store = state.store.pushFrame scope ∧
      (∀ value ∈ values, state.store.Refers value) ∧
      (next result).Within home .free
        (some ⟨(state.store.heap.push (some scope)).1, values⟩)) ∨
    ∃ inner value others name declared heap, opened = some inner ∧
      inner.pending = value :: others ∧
      state.store.heap.declare inner.frame name value declared = .ok heap ∧
      after.store = { state.store with heap } ∧
      (next result).Within home .free (some ⟨inner.frame, others⟩) := by
  cases action with
  | enter scope =>
      cases hrun
      obtain ⟨_, values, hrest⟩ := h
      obtain ⟨hscope, hnext⟩ := hsafe
      -- the plan would declare the same values in a frame that was there before
      have hold := hnext scope state.store hkept (.refl _) ⟨hscope, hscope⟩
      have hrefers : ∀ value ∈ values, state.store.Refers value :=
        Within.refers_pending (hrest scope) hkept hold
      exact .inr (.inl ⟨scope, values, rfl, hrefers, hrest _⟩)
  | declare site scope name declared value =>
      cases opened with
      | none => exact .inl h.2
      | some inner =>
          rw [Action.run] at hrun
          obtain ⟨heap, hheap, rfl⟩ := State.changeHeap_eq_ok_iff.mp hrun
          obtain ⟨rfl, others, hpending, hrest⟩ := h
          exact .inr (.inr ⟨inner, value, others, name, declared, heap, rfl, hpending, hheap,
            rfl, hrest⟩)
  | bindDefinition site scope name value => exact .inl h.2.2
  | pushFunction function =>
      cases function with
      | native native => exact h.elim
      | closure closure => exact .inl (h.2.2 result)
  | function? id => exact .inl (h.2 result fun _ _ => trivial)
  | _ => exact .inl (h.2 result)

end Eval

namespace Moment

open Eval

/-! ## Frames that get no names -/

/-- What is left of the plan stays within a home, and perhaps a frame just made, that are
not some frame, and that frame is private. -/
structure Apart (id : FrameId) (moment : Moment σ) : Prop where
  wellFormed : moment.Keeps .wellFormed
  keeps : moment.Keeps (.keepsPrivate id)
  within : ∃ home opened, moment.rest.Within home .free opened ∧ home ≠ id ∧
    ∀ inner, opened = some inner → inner.frame ≠ id

theorem scope_ne {id home : FrameId} {opened : Option Opened} (hhome : home ≠ id)
    (hopened : ∀ inner, opened = some inner → inner.frame ≠ id) :
    Opened.scope home opened ≠ id := by
  cases opened with
  | none => exact hhome
  | some inner => exact hopened inner rfl

theorem Leads.apart {id : FrameId} {moment next : Moment σ} (h : Leads moment next)
    (hapart : moment.Apart id) : next.Apart id := by
  obtain ⟨hwellFormed, hkeeps, home, opened, hwithin, hhome, hopened⟩ := hapart
  refine ⟨h.keeps hwellFormed, h.keeps hkeeps, ?_⟩
  cases h with
  | perform hresult =>
      obtain ⟨hkept, _, _, hsafe⟩ := hwellFormed
      obtain hrest | ⟨_, _, _, _, hrest⟩ | ⟨inner, _, _, _, _, _, rfl, _, _, _, hrest⟩ :=
        hwithin.cases_of_run hkept hsafe hresult
      · exact ⟨home, none, hrest, hhome, nofun⟩
      · refine ⟨home, _, hrest, hhome, ?_⟩
        rintro _ ⟨⟩ rfl
        exact Nat.lt_irrefl _ hkeeps.1.sound.1
      · refine ⟨home, _, hrest, hhome, ?_⟩
        rintro _ ⟨⟩
        exact hopened inner rfl
  | @intoTree _ budget _ visited scope _ _ _ =>
      obtain ⟨_, hscope, _, _⟩ := hwithin
      exact ⟨scope, none, within_step (Bounds.free_admits visited) budget,
        hscope ▸ scope_ne hhome hopened, nofun⟩
  | pastTree _ => exact ⟨home, none, hwithin.2.2.2 _, hhome, nofun⟩
  | intoAttempt => exact ⟨home, opened, hwithin.1, hhome, hopened⟩
  | pastAttempt _ | pastExit _ => exact ⟨home, none, hwithin.2 _, hhome, nofun⟩
  | intoCall _ => exact ⟨home, none, hwithin.2.1, hhome, nofun⟩
  | pastCall _ _ => exact ⟨home, none, hwithin.2.2 _, hhome, nofun⟩

theorem Reaches.apart {id : FrameId} {first moment : Moment σ} (h : first.Reaches moment)
    (hapart : first.Apart id) : moment.Apart id := by
  induction h with
  | refl => exact hapart
  | tail _ hleads ih => exact hleads.apart ih

/-- No action is asked for that may add a name to the frame. -/
theorem Apart.not_addsTo {id : FrameId} {moment : Moment σ} {action : Action σ β}
    (h : moment.Apart id) (hasks : moment.Asks action) : ¬ action.AddsTo id := by
  obtain ⟨_, ⟨_, _, _, hsafe⟩, home, opened, hwithin, hhome, hopened⟩ := h
  cases hasks
  obtain ⟨hallows, _⟩ := hsafe
  cases action with
  | declare site scope name declared value =>
      rintro rfl
      cases opened with
      | none => exact hhome hwithin.1.symm
      | some inner => exact hopened inner rfl hwithin.1.symm
  | bindDefinition site scope name value =>
      rintro rfl
      exact hhome hwithin.2.1.symm
  | setMember site frame name value => exact hallows.2.1
  | _ => exact fun h => h

/-! ## Signatures -/

theorem composes_prefix_signature (id : FrameId) :
    Composes fun state after : State σ =>
      state.heap.signature id <+: after.heap.signature id where
  refl _ := List.prefix_rfl
  trans := List.IsPrefix.trans
  call h := h

theorem composes_signature_eq (id : FrameId) :
    Composes fun state after : State σ =>
      after.heap.signature id = state.heap.signature id where
  refl _ := rfl
  trans h h' := h'.trans h
  call h := h

variable {moment : Moment σ} {id : FrameId}

/-- However a plan ends, every frame has the names that it had, in their order and with
their types, and new ones only behind them. -/
theorem Keeps.prefix_signature (h : moment.Keeps .wellFormed) (id : FrameId) :
    (moment.rest.run (evaluate moment.budget) moment.state).After fun after =>
      moment.state.heap.signature id <+: after.heap.signature id := by
  refine Respects.run ?_ (composes_prefix_signature id)
  intro _ later action hreaches _
  have hlater := Reaches.keeps hreaches h
  exact (Action.signature_of_end hlater.1.sound id).1

/-- A frame from which a plan stays apart gets no names. -/
theorem Apart.signature_eq (h : moment.Apart id) :
    (moment.rest.run (evaluate moment.budget) moment.state).After fun after =>
      after.heap.signature id = moment.state.heap.signature id := by
  refine Respects.run ?_ (composes_signature_eq id)
  intro _ later action hreaches hasks
  have hlater := Reaches.apart hreaches h
  exact (Action.signature_of_end hlater.wellFormed.1.sound id).2 (hlater.not_addsTo hasks)

/-! ## Visits and calls -/

/-- The moment at which only a part of the plan is to be followed. -/
def part (moment : Moment σ) (part : Eval σ α) : Moment σ :=
  ⟨moment.budget, moment.tree, part, moment.context, moment.state⟩

theorem Visits.keeps {discipline : Discipline σ} {visited : Tree σ} {scope : FrameId}
    (h : moment.Visits visited scope) (hkeeps : moment.Keeps discipline) :
    (moment.part (visit visited scope)).Keeps discipline := by
  obtain ⟨next, hrest⟩ := h
  obtain ⟨hkept, _, _, hsafe⟩ := hkeeps
  rw [hrest] at hsafe
  obtain ⟨hscope, enclosure, hobeys, _⟩ := hsafe
  exact ⟨hkept, _, _, safe_visit hobeys hscope⟩

theorem Calls.keeps {discipline : Discipline σ} {call : Call σ} {body : Eval σ β}
    (h : moment.Calls call body) (hkeeps : moment.Keeps discipline) :
    (moment.part (withCall call body)).Keeps discipline := by
  obtain ⟨next, hrest⟩ := h
  obtain ⟨hkept, onExit, onValue, hsafe⟩ := hkeeps
  rw [hrest] at hsafe
  exact ⟨hkept, onExit, fun value after => (next value).Safe discipline moment.tree onExit after
    onValue, hsafe⟩

/-- A visit stays apart from every frame but its own. -/
theorem apart_visit {visited : Tree σ} {scope : FrameId}
    (hwellFormed : (moment.part (visit visited scope)).Keeps .wellFormed)
    (hkept : (Discipline.keepsPrivate id).Kept moment.state.store) (hne : scope ≠ id) :
    (moment.part (visit visited scope)).Apart id := by
  have hkeeps : (moment.part (visit visited scope)).Keeps (.keepsPrivate id) :=
    ⟨hkept, _, _, safe_visit (visited.obeys_free .program) trivial⟩
  exact ⟨hwellFormed, hkeeps, scope, none, within_visit trivial, hne, nofun⟩

/-- A call stays apart from every frame from which it is kept: it visits nothing in the
frame in which it is made. -/
theorem apart_withCall {call : Call σ} {body : Eval σ β} {closure : Closure σ}
    {values : List Value}
    (hwellFormed : (moment.part (withCall call body)).Keeps .wellFormed)
    (hkeeps : (moment.part (withCall call body)).Keeps (.keepsPrivate id))
    (hinvokes : body.Invokes call closure values) :
    (moment.part (withCall call body)).Apart id := by
  refine ⟨hwellFormed, hkeeps, ⟨id.index + 1⟩, none, ?_, ?_, nofun⟩
  · cases hinvokes
    have hwithin : (callFunction call.site call.name (.closure closure) values).Within
        ⟨id.index + 1⟩ .free none := within_callFunction fun _ _ => trivial
    exact hwithin
  · intro heq
    exact Nat.succ_ne_self _ (congrArg FrameId.index heq)

/-- A call is kept from every private frame of which it is given no namespace. -/
theorem keeps_withCall {call : Call σ} {body : Eval σ β} {closure : Closure σ}
    {values : List Value} {callee : Tree σ} {arguments : List (Tree σ)}
    (htree : moment.tree = .call call.site callee arguments)
    (hinvokes : body.Invokes call closure values)
    (hkept : (Discipline.keepsPrivate id).Kept moment.state.store)
    (hvalues : ∀ value ∈ values, value.Avoids id) :
    (moment.part (withCall call body)).Keeps (.keepsPrivate id) := by
  cases hinvokes
  have hsafe : (callFunction call.site call.name (.closure closure) values).Safe
      (Discipline.keepsPrivate id) moment.tree (fun _ _ => True) moment.state.store
      fun value after => (Discipline.keepsPrivate id).value after value := by
    rw [htree]
    exact safe_callFunction hkept trivial (fun _ _ => ⟨trivial, Tree.obeys_free .function _⟩)
      hvalues
  exact ⟨hkept, _, _, hsafe⟩

/-! ## The scopes of evaluations that have not ended -/

/-- The store is well formed, what is left of the plan stays within a private home, and if
it has just made a frame, this is private too and remains so until a tree is visited in
it. -/
structure Secluded (moment : Moment σ) : Prop where
  wellFormed : moment.Keeps .wellFormed
  within : ∃ home opened, moment.rest.Within home .free opened ∧
    moment.Keeps (.keepsPrivate home) ∧
    ∀ inner, opened = some inner →
      (Discipline.keepsPrivate inner.frame).Kept moment.state.store ∧
        ∀ value ∈ inner.pending, value.Avoids inner.frame

/-- A tree is visited in a private frame. -/
theorem Secluded.kept_visited {budget : Nat} {tree visited : Tree σ} {scope : FrameId}
    {next : Value → Eval σ α} {context : Context σ} {state : State σ}
    (h : Secluded ⟨budget, tree, .visiting visited scope next, context, state⟩) :
    (Discipline.keepsPrivate scope).Kept state.store := by
  obtain ⟨_, home, opened, ⟨_, rfl, _, _⟩, hkeeps, hopened⟩ := h
  cases opened with
  | none => exact hkeeps.1
  | some inner => exact (hopened inner rfl).1

theorem Leads.secluded {moment next : Moment σ} (h : Leads moment next)
    (hsecluded : moment.Secluded) : next.Secluded := by
  have hvisited := hsecluded
  obtain ⟨hwellFormed, home, opened, hwithin, hkeeps, hopened⟩ := hsecluded
  have hnext := h.keeps hkeeps
  refine ⟨h.keeps hwellFormed, ?_⟩
  cases h with
  | perform hresult =>
      obtain ⟨hkept, _, _, hsafe⟩ := hwellFormed
      obtain hrest | ⟨scope, values, hafter, hrefers, hrest⟩ |
          ⟨inner, value, others, _, _, _, rfl, hpending, hdeclare, hafter, hrest⟩ :=
        hwithin.cases_of_run hkept hsafe hresult
      · exact ⟨home, none, hrest, hnext, nofun⟩
      · refine ⟨home, _, hrest, hnext, ?_⟩
        rintro _ ⟨⟩
        refine ⟨?_, fun value hvalue => (hrefers value hvalue).avoids (Nat.lt_irrefl _)⟩
        rw [hafter]
        exact kept_keepsPrivate_pushFrame hkept.sound
      · refine ⟨home, _, hrest, hnext, ?_⟩
        rintro _ ⟨⟩
        obtain ⟨hinner, hvalues⟩ := hopened inner rfl
        rw [hpending, List.forall_mem_cons] at hvalues
        refine ⟨?_, hvalues.2⟩
        rw [hafter]
        exact hinner.of_heap
          ((Discipline.keepsPrivate inner.frame).declare hinner.sound trivial hvalues.1 hdeclare)
  | @intoTree _ budget _ visited scope _ _ _ =>
      have hkept := hvisited.kept_visited
      exact ⟨scope, none, within_step (Bounds.free_admits visited) budget,
        keeps_step hkept (visited.obeys_free .program) trivial, nofun⟩
  | pastTree _ => exact ⟨home, none, hwithin.2.2.2 _, hnext, nofun⟩
  | intoAttempt => exact ⟨home, opened, hwithin.1, hnext, hopened⟩
  | pastAttempt _ | pastExit _ => exact ⟨home, none, hwithin.2 _, hnext, nofun⟩
  | intoCall _ => exact ⟨home, none, hwithin.2.1, hnext, nofun⟩
  | pastCall _ _ => exact ⟨home, none, hwithin.2.2 _, hnext, nofun⟩

theorem Reaches.secluded {first moment : Moment σ} (h : first.Reaches moment)
    (hsecluded : first.Secluded) : moment.Secluded := by
  induction h with
  | refl => exact hsecluded
  | tail _ hleads ih => exact hleads.secluded ih

/-- A frame in which an evaluation runs that has begun behind one moment and has not ended
at another. -/
inductive Encloses (first moment : Moment σ) : FrameId → Prop
  | intro {α : Type} {budget : Nat} {tree visited : Tree σ} {scope : FrameId}
      {next : Value → Eval σ α} {context : Context σ} {state : State σ} :
      first.Reaches ⟨budget + 1, tree, .visiting visited scope next, context, state⟩ →
      Reaches ⟨budget, visited, step budget visited scope, context.anew, state⟩ moment →
      Encloses first moment scope

/-- Behind a secluded moment, all code is kept from the frames in which evaluations run. -/
theorem Encloses.keeps {first moment : Moment σ} {scope : FrameId}
    (h : Encloses first moment scope) (hfirst : first.Secluded) :
    moment.Keeps (.keepsPrivate scope) := by
  obtain ⟨hvisit, hreaches⟩ := h
  have hkept := (Reaches.secluded hvisit hfirst).kept_visited
  exact Reaches.keeps hreaches (keeps_step hkept (Tree.obeys_free .program _) trivial)

end Moment

end Script
