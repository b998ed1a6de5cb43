/-
# Safe plans

When a plan is safe for a discipline, stated by recursion on the plan: what it asks for
is allowed, and whatever it gets in return, the rest is safe. Running a safe plan keeps
the discipline if evaluating the trees that it visits does.
-/

import Script.Proofs.Eval.Discipline
import Script.Proofs.Eval.Run

namespace Script

variable {σ α β : Type}

open Eval

/-- How an evaluation in a state keeps a discipline: so do the states it ends in, what it
gives and the errors and early exits it ends with. -/
def Outcome.Keeps (outcome : Outcome σ α) (discipline : Discipline σ) (before : Store σ)
    (onExit : Exit σ → Store σ → Prop) (onValue : α → Store σ → Prop) : Prop :=
  match outcome with
  | .done value state =>
    discipline.Kept state.store ∧ before.Grows state.store ∧ onValue value state.store
  | .interrupted (.exit exit) state =>
    discipline.Kept state.store ∧ before.Grows state.store ∧ onExit exit state.store
  | .interrupted (.error error) state =>
    discipline.Kept state.store ∧ before.Grows state.store ∧ discipline.Errs error
  | .exhausted => True

/-- A plan, a part of that of a whole tree, is safe in a store: it asks for what the
discipline allows, leaves early as stated, gives values as stated, and begins a call
only if the whole is that call. -/
def Eval.Safe (discipline : Discipline σ) (whole : Tree σ) {α : Type} :
    Eval σ α → (Exit σ → Store σ → Prop) → Store σ → (α → Store σ → Prop) → Prop
  | give value, _, store, onValue => onValue value store
  | perform action next, onExit, store, onValue =>
    discipline.Allows store action ∧
      ∀ result after, discipline.Kept after → store.Grows after →
        discipline.Yields after action result →
        (next result).Safe discipline whole onExit after onValue
  | visiting tree scope next, onExit, store, onValue =>
    discipline.scope store scope ∧ ∃ enclosure, tree.Obeys discipline.rules enclosure ∧
      (∀ exit after, discipline.Kept after → store.Grows after →
        discipline.Exits enclosure exit after → onExit exit after) ∧
      ∀ value after, discipline.Kept after → store.Grows after →
        discipline.value after value →
        (next value).Safe discipline whole onExit after onValue
  | attempting body next, onExit, store, onValue =>
    body.Safe discipline whole
      (fun exit after => (next (.error exit)).Safe discipline whole onExit after onValue) store
      fun value after => (next (.ok value)).Safe discipline whole onExit after onValue
  | calling call body next, onExit, store, onValue =>
    (∃ callee arguments, whole = .call call.site callee arguments) ∧
      discipline.rules.site call.site ∧
      body.Safe discipline whole (fun _ _ => False) store
        fun value after => (next value).Safe discipline whole onExit after onValue
  | leave exit, onExit, store, _ => onExit exit store
  | exhausted, _, _, _ => True

variable {discipline : Discipline σ} {whole : Tree σ} {store : Store σ}
  {onExit : Exit σ → Store σ → Prop}

namespace Eval

/-- One demand is weaker than another in every store that comes later. -/
def Weakens (discipline : Discipline σ) (store : Store σ) (demand weaker : α → Store σ → Prop) :
    Prop :=
  ∀ x after, discipline.Kept after → store.Grows after → demand x after → weaker x after

theorem Weakens.later {demand weaker : α → Store σ → Prop} {after : Store σ}
    (h : Weakens discipline store demand weaker) (hgrows : store.Grows after) :
    Weakens discipline after demand weaker :=
  fun x later hlater hgrows' => h x later hlater (hgrows.trans hgrows')

/-- A plan is safe for weaker demands. -/
theorem Safe.imp {plan : Eval σ α} {onExit' : Exit σ → Store σ → Prop}
    {onValue onValue' : α → Store σ → Prop} (hkept : discipline.Kept store)
    (h : plan.Safe discipline whole onExit store onValue)
    (hexit : Weakens discipline store onExit onExit')
    (hvalue : Weakens discipline store onValue onValue') :
    plan.Safe discipline whole onExit' store onValue' := by
  induction plan generalizing store onExit onExit' with
  | give value => exact hvalue value store hkept (.refl store) h
  | leave exit => exact hexit exit store hkept (.refl store) h
  | exhausted => trivial
  | perform action next ih =>
      obtain ⟨hallows, hnext⟩ := h
      refine ⟨hallows, ?_⟩
      intro result after hafter hgrows hyields
      have hsafe := hnext result after hafter hgrows hyields
      exact ih result hafter hsafe (hexit.later hgrows) (hvalue.later hgrows)
  | visiting tree scope next ih =>
      obtain ⟨hscope, enclosure, hobeys, hexits, hnext⟩ := h
      refine ⟨hscope, enclosure, hobeys, ?_, ?_⟩
      · intro exit after hafter hgrows hexit'
        exact hexit exit after hafter hgrows (hexits exit after hafter hgrows hexit')
      · intro value after hafter hgrows hvalue'
        have hsafe := hnext value after hafter hgrows hvalue'
        exact ih value hafter hsafe (hexit.later hgrows) (hvalue.later hgrows)
  | attempting body next ihBody ih =>
      refine ihBody hkept h ?_ ?_
      · intro exit after hafter hgrows hnext
        exact ih (.error exit) hafter hnext (hexit.later hgrows) (hvalue.later hgrows)
      · intro value after hafter hgrows hnext
        exact ih (.ok value) hafter hnext (hexit.later hgrows) (hvalue.later hgrows)
  | calling call body next ihBody ih =>
      obtain ⟨hwhole, hsite, hbody⟩ := h
      refine ⟨hwhole, hsite, ihBody hkept hbody (fun _ _ _ _ hfalse => hfalse) ?_⟩
      intro value after hafter hgrows hnext
      exact ih value hafter hnext (hexit.later hgrows) (hvalue.later hgrows)

theorem safe_bind_eq {plan : Eval σ α} {continuation : α → Eval σ β}
    {onValue : β → Store σ → Prop} :
    (plan >>= continuation).Safe discipline whole onExit store onValue =
      plan.Safe discipline whole onExit store fun value after =>
        (continuation value).Safe discipline whole onExit after onValue := by
  change (plan.bind continuation).Safe discipline whole onExit store onValue = _
  induction plan generalizing store onExit with
  | give value => rfl
  | leave exit => rfl
  | exhausted => rfl
  | perform action next ih => simp only [Eval.bind, Safe, ih]
  | visiting tree scope next ih => simp only [Eval.bind, Safe, ih]
  | attempting body next ihBody ih => simp only [Eval.bind, Safe, ih]
  | calling call body next ihBody ih => simp only [Eval.bind, Safe, ih]

/-- Two safe plans in a row are one, if the second is safe in every store in which the
first may end. -/
theorem Safe.bind {plan : Eval σ α} {continuation : α → Eval σ β}
    {onMiddle : α → Store σ → Prop} {onValue : β → Store σ → Prop}
    (hkept : discipline.Kept store) (h : plan.Safe discipline whole onExit store onMiddle)
    (hnext : ∀ value after, discipline.Kept after → store.Grows after → onMiddle value after →
      (continuation value).Safe discipline whole onExit after onValue) :
    (plan >>= continuation).Safe discipline whole onExit store onValue := by
  rw [safe_bind_eq]
  exact h.imp hkept (fun _ _ _ _ hexit => hexit) hnext

/-- A safe plan whose early exits are taken as results is safe with what goes on from
either. -/
theorem Safe.attempt {body : Eval σ α} {continuation : Except (Exit σ) α → Eval σ β}
    {onBodyExit : Exit σ → Store σ → Prop} {onMiddle : α → Store σ → Prop}
    {onValue : β → Store σ → Prop} (hkept : discipline.Kept store)
    (h : body.Safe discipline whole onBodyExit store onMiddle)
    (hexit : ∀ exit after, discipline.Kept after → store.Grows after → onBodyExit exit after →
      (continuation (.error exit)).Safe discipline whole onExit after onValue)
    (hvalue : ∀ value after, discipline.Kept after → store.Grows after → onMiddle value after →
      (continuation (.ok value)).Safe discipline whole onExit after onValue) :
    (Eval.attempt body >>= continuation).Safe discipline whole onExit store onValue := by
  have hbody := Safe.imp hkept h hexit hvalue
  exact hbody

/-! ## Running safe plans -/

theorem keeps_of_grows {before middle : Store σ} {outcome : Outcome σ α}
    {onValue : α → Store σ → Prop} (hgrows : before.Grows middle)
    (h : outcome.Keeps discipline middle onExit onValue) :
    outcome.Keeps discipline before onExit onValue := by
  cases outcome with
  | done value state => exact ⟨h.1, hgrows.trans h.2.1, h.2.2⟩
  | interrupted interrupt state =>
      cases interrupt with
      | exit exit => exact ⟨h.1, hgrows.trans h.2.1, h.2.2⟩
      | error error => exact ⟨h.1, hgrows.trans h.2.1, h.2.2⟩
  | exhausted => trivial

theorem keeps_ofAction {action : Action σ α} {state : State σ}
    (hkept : discipline.Kept state.store) (hallows : discipline.Allows state.store action) :
    (Outcome.ofAction (action.run state)).Keeps discipline state.store onExit
      fun result after => discipline.Yields after action result := by
  cases hrun : action.run state with
  | mk result after =>
      cases result with
      | ok value =>
          obtain ⟨hafter, hyields⟩ := hkept.action hallows hrun
          exact ⟨hafter, Action.grows_of_run hrun, hyields⟩
      | error error =>
          rw [(Action.run_eq_error hrun).1]
          exact ⟨hkept, .refl _, Discipline.errs_of_allows hallows hrun⟩

end Eval

namespace Outcome.Keeps

variable {outcome : Outcome σ α} {before : Store σ} {onValue : α → Store σ → Prop}

theorem andThen {next : α → State σ → Outcome σ β} {onMiddle : α → Store σ → Prop}
    {onValue : β → Store σ → Prop} (h : outcome.Keeps discipline before onExit onMiddle)
    (hnext : ∀ value middle, discipline.Kept middle.store → before.Grows middle.store →
      onMiddle value middle.store →
      (next value middle).Keeps discipline middle.store onExit onValue) :
    (outcome.andThen next).Keeps discipline before onExit onValue := by
  cases outcome with
  | done value middle =>
      obtain ⟨hmiddle, hgrows, hvalue⟩ := h
      exact keeps_of_grows hgrows (hnext value middle hmiddle hgrows hvalue)
  | interrupted interrupt middle => cases interrupt <;> exact h
  | exhausted => trivial

theorem imp_exit {onExit' : Exit σ → Store σ → Prop}
    (h : outcome.Keeps discipline before onExit onValue)
    (hexit : ∀ exit after, discipline.Kept after → before.Grows after → onExit exit after →
      onExit' exit after) : outcome.Keeps discipline before onExit' onValue := by
  cases outcome with
  | done value middle => exact h
  | interrupted interrupt middle =>
      cases interrupt with
      | error error => exact h
      | exit exit => exact ⟨h.1, h.2.1, hexit exit _ h.1 h.2.1 h.2.2⟩
  | exhausted => trivial

theorem attempted {onResult : Except (Exit σ) α → Store σ → Prop}
    (h : outcome.Keeps discipline before (fun exit => onResult (.error exit))
      fun value => onResult (.ok value)) :
    outcome.attempted.Keeps discipline before onExit onResult := by
  cases outcome with
  | done value middle => exact h
  | interrupted interrupt middle => cases interrupt <;> exact h
  | exhausted => trivial

/-- No early exit gets out of a call. -/
theorem popCall (h : outcome.Keeps discipline before (fun _ _ => False) onValue) :
    outcome.popCall.Keeps discipline before onExit onValue := by
  cases outcome with
  | done value middle => exact h
  | interrupted interrupt middle =>
      cases interrupt with
      | error error => exact h
      | exit exit => exact h.2.2.elim
  | exhausted => trivial

end Outcome.Keeps

namespace Eval

/-- Running a safe plan keeps the discipline if evaluating trees does. -/
theorem Safe.run {evaluate : Evaluator σ}
    (hevaluate : ∀ {enclosure : Enclosure} {tree : Tree σ} {scope : FrameId} {state : State σ},
      discipline.Kept state.store → tree.Obeys discipline.rules enclosure →
      discipline.scope state.store scope →
      (evaluate tree scope state).Keeps discipline state.store (discipline.Exits enclosure)
        (fun value after => discipline.value after value))
    {plan : Eval σ α} {state : State σ} {onValue : α → Store σ → Prop}
    (hkept : discipline.Kept state.store)
    (h : plan.Safe discipline whole onExit state.store onValue) :
    (plan.run evaluate state).Keeps discipline state.store onExit onValue := by
  induction plan generalizing state onExit with
  | give value => exact ⟨hkept, .refl _, h⟩
  | leave exit => exact ⟨hkept, .refl _, h⟩
  | exhausted => trivial
  | perform action next ih =>
      obtain ⟨hallows, hnext⟩ := h
      rw [run_perform]
      refine (keeps_ofAction hkept hallows).andThen ?_
      intro result middle hmiddle hgrows hyields
      exact ih result hmiddle (hnext result middle.store hmiddle hgrows hyields)
  | visiting tree scope next ih =>
      obtain ⟨hscope, enclosure, hobeys, hexits, hnext⟩ := h
      rw [run_visiting]
      refine ((hevaluate hkept hobeys hscope).imp_exit hexits).andThen ?_
      intro value middle hmiddle hgrows hvalue
      exact ih value hmiddle (hnext value middle.store hmiddle hgrows hvalue)
  | attempting body next ihBody ih =>
      rw [run_attempting]
      have hbody : (body.run evaluate state).attempted.Keeps discipline state.store onExit
          fun result after => (next result).Safe discipline whole onExit after onValue :=
        .attempted (ihBody hkept h)
      exact hbody.andThen fun result middle hmiddle _ hnext => ih result hmiddle hnext
  | calling call body next ihBody ih =>
      obtain ⟨_, hsite, hbody⟩ := h
      obtain hfew | hdeep := Nat.lt_or_ge state.calls.length State.maxCalls
      · have hstart : discipline.Kept (state.pushCall call).store := hkept
        rw [run_calling call body next hfew]
        refine (ihBody hstart hbody).popCall.andThen ?_
        intro value middle hmiddle _ hnext
        exact ih value hmiddle hnext
      · rw [run_calling_of_deep call body next hdeep]
        exact ⟨hkept, .refl _, hsite, fun _ => rfl⟩

end Eval

end Script
