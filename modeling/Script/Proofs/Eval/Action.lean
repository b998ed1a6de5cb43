/-
# What actions do

An action that fails leaves the state as it is, and its error tells the calls that are
active there. An action that succeeds changes the heap, the functions or the sink, and
nothing else. No action begins or ends a call.
-/

import Script.Eval.Action
import Script.Proofs.Heap.Basic

namespace Script

variable {σ α : Type}

/-! ## Results and errors -/

namespace State

variable {state after : State σ} {site : σ} {error : RuntimeError σ}

theorem answer_eq_ok_iff {result : Except Fault α} {value : α} :
    state.answer site result = (.ok value, after) ↔ result = .ok value ∧ after = state := by
  cases result <;> simp [answer, eq_comm]

theorem answer_eq_error_iff {result : Except Fault α} :
    state.answer site result = (.error error, after) ↔
      ∃ fault, result = .error fault ∧ error = ⟨fault, site, state.calls⟩ ∧ after = state := by
  cases result <;> simp [answer, eq_comm]

theorem changeHeap_eq_ok_iff {operation : Heap → Heap.Change}
    {result : Unit} :
    state.changeHeap site operation = (.ok result, after) ↔
      ∃ heap, operation state.heap = .ok heap ∧ after = { state with heap } := by
  rw [changeHeap]
  obtain _ | _ := operation state.heap <;> simp [eq_comm]

theorem changeHeap_eq_error_iff {operation : Heap → Heap.Change} :
    state.changeHeap site operation = (.error error, after) ↔
      ∃ problem heap, operation state.heap = .error problem heap ∧
        error = ⟨.binding problem, site, state.calls⟩ ∧ after = { state with heap } := by
  rw [changeHeap]
  obtain _ | ⟨problem, heap⟩ := operation state.heap
  · simp
  · constructor
    · intro h
      cases h
      exact ⟨problem, heap, rfl, rfl, rfl⟩
    · rintro ⟨_, _, hproblem, rfl, rfl⟩
      cases hproblem
      rfl

theorem write_eq_ok_iff {text : String} {result : Unit} :
    state.write site text = (.ok result, after) ↔
      state.sink.hasRoom text = true ∧ after = { state with sink := state.sink.write text } := by
  rw [write]
  split
  · next hroom => simp [hroom, eq_comm]
  · next hroom => simp [hroom]

theorem write_eq_error_iff {text : String} :
    state.write site text = (.error error, after) ↔
      state.sink.hasRoom text = false ∧ error = ⟨.sinkFull, site, state.calls⟩ ∧
        after = state := by
  rw [write]
  split
  · next hroom => simp [hroom]
  · next hroom =>
    constructor
    · intro h
      cases h
      exact ⟨by simpa using hroom, rfl, rfl⟩
    · rintro ⟨_, rfl, rfl⟩
      rfl

end State

theorem Except.mapError_eq_error_iff {ε ε' : Type} {f : ε → ε'} {result : Except ε α}
    {problem : ε'} :
    result.mapError f = .error problem ↔ ∃ error, result = .error error ∧ f error = problem := by
  cases result with
  | ok value =>
      constructor
      · intro h
        cases h
      · rintro ⟨_, heq, _⟩
        cases heq
  | error error =>
      constructor
      · intro h
        cases h
        exact ⟨error, rfl, rfl⟩
      · rintro ⟨_, heq, rfl⟩
        cases heq
        rfl

theorem Except.mapError_eq_ok_iff {ε ε' : Type} {f : ε → ε'} {result : Except ε α}
    {value : α} : result.mapError f = .ok value ↔ result = .ok value := by
  cases result with
  | ok given =>
      constructor
      · intro h
        cases h
        rfl
      · intro h
        cases h
        rfl
  | error error =>
      constructor
      · intro h
        cases h
      · intro h
        cases h

/-! ## Errors of actions -/

/-- Whether a fault tells of an early exit that nothing ended. -/
def Fault.isStray : Fault → Bool
  | .strayReturn | .strayBreak | .strayContinue => true
  | _ => false

/-- Whether an action may fail with a fault at a site. -/
def Action.Blames : Action σ α → Fault → σ → Prop
  | .lookup site .., fault, at_ | .declare site .., fault, at_ | .assign site .., fault, at_
  | .setMember site .., fault, at_ | .bindDefinition site .., fault, at_ =>
    at_ = site ∧ ∃ problem, fault = .binding problem
  | .element site .., fault, at_ | .apply site .., fault, at_ =>
    at_ = site ∧ ∃ problem, fault = .operation problem
  | .write site _, fault, at_ => at_ = site ∧ fault = .sinkFull
  | .raise raised site, fault, at_ => at_ = site ∧ fault = raised
  | _, _, _ => False

/-- An operation that leaves the heap as it is where it fails leaves the state so. -/
theorem State.blames_of_changeHeap {operation : Heap → Heap.Change}
    {state after : State σ} {site : σ} {error : RuntimeError σ}
    (hsame : ∀ {problem heap}, operation state.heap = .error problem heap →
      heap = state.heap)
    (h : state.changeHeap site operation = (.error error, after)) :
    after = state ∧ error.calls = state.calls ∧
      error.site = site ∧ ∃ problem, error.fault = .binding problem := by
  obtain ⟨problem, heap, hheap, rfl, rfl⟩ := State.changeHeap_eq_error_iff.mp h
  rw [hsame hheap]
  exact ⟨rfl, rfl, rfl, problem, rfl⟩

/-- An action that fails changes nothing, and its error tells the active calls. -/
theorem Action.run_eq_error {action : Action σ α} {state after : State σ}
    {error : RuntimeError σ} (h : action.run state = (.error error, after)) :
    after = state ∧ error.calls = state.calls ∧ action.Blames error.fault error.site := by
  cases action with
  | lookup site scope name | element site object key | apply site operator left right =>
      obtain ⟨fault, hfault, rfl, rfl⟩ := State.answer_eq_error_iff.mp h
      obtain ⟨problem, _, rfl⟩ := Except.mapError_eq_error_iff.mp hfault
      exact ⟨rfl, rfl, rfl, problem, rfl⟩
  | declare site scope name declared value =>
      rw [run] at h
      exact State.blames_of_changeHeap Heap.declare_eq_error h
  | assign site scope name value =>
      rw [run] at h
      exact State.blames_of_changeHeap Heap.assign_eq_error h
  | setMember site frame name value =>
      rw [run] at h
      exact State.blames_of_changeHeap Heap.setLocal_eq_error h
  | bindDefinition site scope name value =>
      rw [run] at h
      exact State.blames_of_changeHeap (fun hrefused =>
        (Heap.bindDefinition_eq_error_iff.mp hrefused).2) h
  | write site text =>
      rw [run] at h
      obtain ⟨_, rfl, rfl⟩ := State.write_eq_error_iff.mp h
      exact ⟨rfl, rfl, rfl, rfl⟩
  | raise fault site =>
      cases h
      exact ⟨rfl, rfl, rfl, rfl⟩
  | _ => cases h

/-! ## Effects -/

/-- What becomes of a state by an action: nothing, or only more frames or other bindings,
one more function, or another sink. -/
inductive Effect : State σ → State σ → Prop
  | nothing {state : State σ} : Effect state state
  | heap {state : State σ} {heap : Heap} :
      state.heap.frames.size ≤ heap.frames.size → Effect state { state with heap }
  | function {state : State σ} (function : Function σ) :
      Effect state (state.pushFunction function).2
  | sink {state : State σ} {sink : Sink} : Effect state { state with sink }

theorem Effect.of_changeHeap {state after : State σ} {site : σ} {result : Unit}
    {operation : Heap → Heap.Change}
    (hsize : ∀ {heap}, operation state.heap = .ok heap →
      heap.frames.size = state.heap.frames.size)
    (h : state.changeHeap site operation = (.ok result, after)) : Effect state after := by
  obtain ⟨heap, hheap, rfl⟩ := State.changeHeap_eq_ok_iff.mp h
  exact .heap (Nat.le_of_eq (hsize hheap).symm)

theorem Action.effect_of_run {action : Action σ α} {state after : State σ}
    {result : Except (RuntimeError σ) α} (h : action.run state = (result, after)) :
    Effect state after := by
  cases result with
  | error error =>
      rw [(run_eq_error h).1]
      exact .nothing
  | ok value =>
      cases action with
      | lookup site scope name | element site object key | apply site operator left right =>
          rw [(State.answer_eq_ok_iff.mp h).2]
          exact .nothing
      | declare site scope name declared value =>
          rw [run] at h
          exact .of_changeHeap Heap.size_declare h
      | assign site scope name value =>
          rw [run] at h
          exact .of_changeHeap Heap.size_assign h
      | setMember site frame name value =>
          rw [run] at h
          exact .of_changeHeap Heap.size_setLocal h
      | bindDefinition site scope name value =>
          rw [run] at h
          exact .of_changeHeap Heap.size_bindDefinition h
      | enter scope =>
          cases h
          exact .heap (Heap.size_push_le _ _)
      | pushFunction function =>
          cases h
          exact .function function
      | write site text =>
          rw [run] at h
          obtain ⟨_, rfl⟩ := State.write_eq_ok_iff.mp h
          exact .sink
      | raise fault site => cases value
      | member frame name | display value | length? value | function? id =>
          cases h
          exact .nothing

/-- No action begins or ends a call. -/
theorem Effect.calls {state after : State σ} (h : Effect state after) :
    after.calls = state.calls := by
  cases h <;> rfl

theorem Action.calls_of_run {action : Action σ α} {state after : State σ}
    {result : Except (RuntimeError σ) α} (h : action.run state = (result, after)) :
    after.calls = state.calls :=
  (effect_of_run h).calls

end Script
