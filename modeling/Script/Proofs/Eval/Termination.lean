/-
# Evaluation without loops ends

Where neither a tree nor the body of any function has a loop in it, evaluation ends. The
trees that are visited become smaller, except that a call goes on to the body of some
function; but every call makes the stack of calls higher, and only so many calls may be
active. No body is ever larger than the largest one at the beginning, since the bodies of
new functions are parts of trees that are there already. This gives a budget that is
enough: the size of the tree, and for each further call that may become active one more
than the size of the largest body.
-/

import Mathlib.Algebra.Order.BigOperators.Group.List
import Mathlib.Algebra.Order.Group.Nat
import Script.Proofs.Eval.Action
import Script.Proofs.Eval.Run
import Script.Proofs.Eval.Within

namespace Script

variable {σ α β : Type}

/-- A tree without loops that is not larger than a bound. -/
structure Tree.Fits (size : Nat) (tree : Tree σ) : Prop where
  loopless : tree.Loopless
  sizeOf_le : sizeOf tree ≤ size

/-- The bodies of all functions fit. -/
def State.Fits (size : Nat) (state : State σ) : Prop :=
  ∀ {id : FunctionId} {closure : Closure σ},
    state.function? id = some (.closure closure) → closure.body.Fits size

theorem State.Fits.pushFunction {size : Nat} {state : State σ} {closure : Closure σ}
    (h : state.Fits size) (hbody : closure.body.Fits size) :
    (state.pushFunction (.closure closure)).2.Fits size := by
  intro id definition hdefinition
  rw [State.function?, State.pushFunction, Array.getElem?_push] at hdefinition
  split at hdefinition
  · cases hdefinition
    exact hbody
  · exact h hdefinition

/-- The size of the body, which a native does not have. -/
noncomputable def Function.bodySize : Function σ → Nat
  | .native _ => 0
  | .closure definition => sizeOf definition.body

/-- There is a bound for the bodies of all functions if none of them has a loop. -/
theorem State.exists_fits {state : State σ}
    (h : ∀ {id : FunctionId} {closure : Closure σ},
      state.function? id = some (.closure closure) → closure.body.Loopless) (least : Nat) :
    ∃ size, least ≤ size ∧ state.Fits size := by
  refine ⟨least + (state.functions.toList.map Function.bodySize).sum, Nat.le_add_right _ _, ?_⟩
  intro id closure hclosure
  refine ⟨h hclosure, ?_⟩
  have hmem : Function.closure closure ∈ state.functions.toList :=
    Array.mem_toList_iff.mpr (Array.mem_of_getElem? hclosure)
  have hle : sizeOf closure.body ≤ (state.functions.toList.map Function.bodySize).sum :=
    List.le_sum_of_mem (List.mem_map.mpr ⟨_, hmem, rfl⟩)
  omega

/-- The bounds of a plan that is never cut off and makes only functions that fit. -/
def Bounds.fitting (size : Nat) (visits : Tree σ → Prop) : Bounds σ :=
  ⟨visits, Tree.Fits size, False⟩

/-- An evaluation ends, with functions that fit and the calls that were active before. -/
def Outcome.Ends (outcome : Outcome σ α) (size : Nat) (calls : List (Call σ)) : Prop :=
  match outcome with
  | .done _ after | .interrupted _ after => after.Fits size ∧ after.calls = calls
  | .exhausted => False

namespace Outcome.Ends

variable {outcome : Outcome σ α} {size : Nat} {calls : List (Call σ)}

theorem andThen {next : α → State σ → Outcome σ β} (h : outcome.Ends size calls)
    (hnext : ∀ value middle, outcome = .done value middle → middle.Fits size →
      middle.calls = calls → (next value middle).Ends size calls) :
    (outcome.andThen next).Ends size calls := by
  cases outcome with
  | done value middle => exact hnext value middle rfl h.1 h.2
  | interrupted interrupt middle => exact h
  | exhausted => exact h

theorem attempted (h : outcome.Ends size calls) : outcome.attempted.Ends size calls := by
  cases outcome with
  | done value middle => exact h
  | interrupted interrupt middle => cases interrupt <;> exact h
  | exhausted => exact h

theorem popCall {call : Call σ} (h : outcome.Ends size (call :: calls)) :
    outcome.popCall.Ends size calls := by
  cases outcome with
  | done value middle => exact ⟨h.1, congrArg List.tail h.2⟩
  | interrupted interrupt middle => exact ⟨h.1, congrArg List.tail h.2⟩
  | exhausted => exact h

end Outcome.Ends

/-- An action within the bounds keeps what fits, and the plan goes on within them. -/
theorem Action.Within.fits {size : Nat} {visits : Tree σ → Prop} {home : FrameId}
    {action : Action σ β} {opened : Option Opened} {rest : β → Option Opened → Prop}
    {state after : State σ} {result : β}
    (h : action.Within (.fitting size visits) home opened rest) (hfits : state.Fits size)
    (hrun : action.run state = (.ok result, after)) :
    after.Fits size ∧ ∃ opened, rest result opened := by
  cases action with
  | lookup site scope name | element site object key | apply site operator left right =>
      obtain ⟨_, rfl⟩ := State.answer_eq_ok_iff.mp hrun
      exact ⟨hfits, none, h.2 result⟩
  | member frame name | display value | length? value =>
      cases hrun
      exact ⟨hfits, none, h.2 _⟩
  | enter scope =>
      cases hrun
      obtain ⟨_, _, hrest⟩ := h
      exact ⟨hfits, _, hrest _⟩
  | declare site scope name declared value =>
      rw [run] at hrun
      obtain ⟨_, _, rfl⟩ := State.changeHeap_eq_ok_iff.mp hrun
      cases opened with
      | none => exact ⟨hfits, none, h.2⟩
      | some opened =>
          obtain ⟨_, _, _, hrest⟩ := h
          exact ⟨hfits, _, hrest⟩
  | assign site scope name value | setMember site frame name value =>
      rw [run] at hrun
      obtain ⟨_, _, rfl⟩ := State.changeHeap_eq_ok_iff.mp hrun
      exact ⟨hfits, none, h.2 result⟩
  | bindDefinition site scope name value =>
      rw [run] at hrun
      obtain ⟨_, _, rfl⟩ := State.changeHeap_eq_ok_iff.mp hrun
      exact ⟨hfits, none, h.2.2⟩
  | pushFunction function =>
      cases function with
      | native native => exact h.elim
      | closure closure =>
          cases hrun
          exact ⟨hfits.pushFunction h.2.1, none, h.2.2 _⟩
  | function? id =>
      cases hrun
      exact ⟨hfits, none, h.2 _ fun closure hclosure => hfits hclosure⟩
  | write site text =>
      rw [run] at hrun
      obtain ⟨_, rfl⟩ := State.write_eq_ok_iff.mp hrun
      exact ⟨hfits, none, h.2 result⟩
  | raise fault site => cases result

/-- An action within the bounds ends. -/
theorem Action.Within.ends {size : Nat} {visits : Tree σ → Prop} {home : FrameId}
    {action : Action σ β} {opened : Option Opened} {rest : β → Option Opened → Prop}
    {state : State σ} (h : action.Within (.fitting size visits) home opened rest)
    (hfits : state.Fits size) : (Outcome.ofAction (action.run state)).Ends size state.calls := by
  cases hrun : action.run state with
  | mk result after =>
      cases result with
      | ok value => exact ⟨(h.fits hfits hrun).1, Action.calls_of_run hrun⟩
      | error error =>
          rw [(Action.run_eq_error hrun).1]
          exact ⟨hfits, rfl⟩

namespace Eval

/-- What the evaluations of trees must do for a plan to end: those that the plan visits
with as many calls active as it was begun with, and all that fit with more. -/
def EndsDeeper (evaluate : Evaluator σ) (size depth : Nat) (visits : Tree σ → Prop) : Prop :=
  ∀ {tree : Tree σ} {scope : FrameId} {state : State σ}, state.Fits size →
    state.calls.length ≤ State.maxCalls →
    (visits tree ∧ state.calls.length = depth ∨
      tree.Fits size ∧ depth < state.calls.length) →
    (evaluate tree scope state).Ends size state.calls

/-- A plan within the bounds ends if the evaluations of trees do. -/
theorem Within.ends {evaluate : Evaluator σ} {size : Nat} {home : FrameId} {plan : Eval σ α} :
    ∀ {visits : Tree σ → Prop} {opened : Option Opened} {state : State σ}
      {calls : List (Call σ)},
      plan.Within home (.fitting size visits) opened → state.Fits size → state.calls = calls →
      calls.length ≤ State.maxCalls → EndsDeeper evaluate size calls.length visits →
      (plan.run evaluate state).Ends size calls := by
  induction plan with
  | give value | leave exit => exact fun _ hfits hcalls _ _ => ⟨hfits, hcalls⟩
  | exhausted => exact fun h _ _ _ _ => h.2.elim
  | perform action next ih =>
      rintro visits opened state _ h hfits rfl hfew hends
      rw [run_perform]
      refine .andThen (Action.Within.ends h hfits) fun result middle hdone hmiddle hcalls => ?_
      obtain ⟨_, _, hrest⟩ := h.fits hfits (Outcome.eq_of_ofAction_eq_done hdone)
      exact ih result hrest hmiddle hcalls hfew hends
  | visiting tree scope next ih =>
      rintro visits opened state _ ⟨hvisits, _, _, hrest⟩ hfits rfl hfew hends
      rw [run_visiting]
      have hvisit : (evaluate tree scope state).Ends size state.calls :=
        hends hfits hfew (.inl ⟨hvisits, rfl⟩)
      exact hvisit.andThen fun value middle _ hmiddle hcalls =>
        ih value (hrest value) hmiddle hcalls hfew hends
  | attempting body next ihBody ih =>
      rintro visits opened state _ ⟨hbody, hrest⟩ hfits rfl hfew hends
      rw [run_attempting]
      refine (ihBody hbody hfits rfl hfew hends).attempted.andThen ?_
      intro result middle _ hmiddle hcalls
      exact ih result (hrest result) hmiddle hcalls hfew hends
  | calling call body next ihBody ih =>
      rintro visits opened state _ ⟨_, hinside, hrest⟩ hfits rfl hfew hends
      obtain hroom | hdeep := Nat.lt_or_ge state.calls.length State.maxCalls
      · -- one more call is active, and the body visits only what fits
        have hdeeper : EndsDeeper evaluate size (call :: state.calls).length
            (Tree.Fits size) := by
          rintro tree scope inner hinner hless (⟨htree, hdepth⟩ | ⟨htree, hdepth⟩)
          · exact hends hinner hless (.inr ⟨htree, hdepth ▸ Nat.lt_succ_self _⟩)
          · exact hends hinner hless (.inr ⟨htree, Nat.lt_of_succ_lt hdepth⟩)
        have hstart : (state.pushCall call).Fits size := hfits
        rw [run_calling call body next hroom]
        refine (ihBody hinside hstart rfl hroom hdeeper).popCall.andThen ?_
        intro value middle _ hmiddle hcalls
        exact ih value (hrest value) hmiddle hcalls hfew hends
      · rw [run_calling_of_deep call body next hdeep]
        exact ⟨hfits, rfl⟩

/-- A budget that is enough: one more than the size of the tree, and for each further call
that may become active one more than the size of the largest body. -/
theorem ends_of_fits {size budget : Nat} {tree : Tree σ} {scope : FrameId} {state : State σ}
    (htree : tree.Fits size) (hstate : state.Fits size)
    (hfew : state.calls.length ≤ State.maxCalls)
    (hbudget : (State.maxCalls - state.calls.length) * (size + 1) + sizeOf tree < budget) :
    (evaluate budget tree scope state).Ends size state.calls := by
  induction budget generalizing tree scope state with
  | zero => omega
  | succ budget ih =>
      let visits (part : Tree σ) : Prop := part.Loopless ∧ sizeOf part < sizeOf tree
      have hadmits : (Bounds.fitting size visits).Admits tree := by
        refine ⟨?_, ?_, ?_⟩
        · intro part hpart
          exact ⟨htree.loopless.of_mem_parts hpart, Tree.sizeOf_lt_of_mem_parts hpart⟩
        · intro body hbody
          have hless := Tree.sizeOf_lt_of_definedBody? hbody
          exact ⟨htree.loopless.of_definedBody? hbody, Nat.le_of_lt_succ
            (Nat.lt_succ_of_lt (Nat.lt_of_lt_of_le hless htree.sizeOf_le))⟩
        · rw [htree.loopless.isLoop_eq_false]
          exact nofun
      have hplan : (step budget tree scope).Within scope (.fitting size visits) none :=
        within_step hadmits budget
      refine hplan.ends hstate rfl hfew ?_
      rintro part inner middle hmiddle hless (⟨⟨hloopless, hsize⟩, hdepth⟩ | ⟨hpart, hdepth⟩)
      · refine ih ⟨hloopless, ?_⟩ hmiddle hless ?_
        · exact Nat.le_trans (Nat.le_of_lt hsize) htree.sizeOf_le
        · rw [hdepth]
          omega
      · refine ih hpart hmiddle hless ?_
        -- what is left for further calls has become smaller by the size of a body at least
        obtain ⟨further, hfurther⟩ :
            ∃ further, State.maxCalls - state.calls.length = further + 1 :=
          ⟨State.maxCalls - state.calls.length - 1, by omega⟩
        have hle : (State.maxCalls - middle.calls.length) * (size + 1) ≤ further * (size + 1) :=
          Nat.mul_le_mul_right _ (by omega)
        have hpartSize := hpart.sizeOf_le
        rw [hfurther, Nat.succ_mul] at hbudget
        omega

end Eval

end Script
