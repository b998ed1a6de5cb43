/-
# Evaluation under a translation

A state is translated by translating the sites of its calls and its functions with their
bodies; heap and sink have neither, so they stay. A plan mirrors another that says the
same under a translation: run in the translation of a state, it ends in the translation of
how the other ends, up to a comparison. Besides equality there are two comparisons, by
which one of the two may run out of its budget where the other does not.
-/

import Script.Proofs.Eval.Budget
import Script.Proofs.Syntax.Translation

namespace Script

variable {σ τ α β γ δ : Type}

/-! ## States and outcomes -/

section Translate

variable (translation : Translation σ τ)

/-- A call under a translation. -/
def Call.translate (call : Call σ) : Call τ := ⟨call.name, translation.site call.site⟩

/-- An error under a translation. -/
def RuntimeError.translate (error : RuntimeError σ) : RuntimeError τ :=
  ⟨error.fault, translation.site error.site, error.calls.map (Call.translate translation)⟩

/-- An early exit under a translation. -/
def Exit.translate : Exit σ → Exit τ
  | .returned value site => .returned value (translation.site site)
  | .breaking site => .breaking (translation.site site)
  | .continuing site => .continuing (translation.site site)

/-- What ends an evaluation, under a translation. -/
def Interrupt.translate : Interrupt σ → Interrupt τ
  | .error problem => .error (problem.translate translation)
  | .exit early => .exit (early.translate translation)

/-- A defined function under a translation. -/
def Closure.translate (closure : Closure σ) : Closure τ where
  parameters := closure.parameters
  returnType := closure.returnType
  givesBody := (translation.body closure.givesBody (closure.body.translate translation)).1
  body := (translation.body closure.givesBody (closure.body.translate translation)).2
  scope := closure.scope

/-- A function under a translation. -/
def Function.translate : Function σ → Function τ
  | .native function => .native function
  | .closure definition => .closure (definition.translate translation)

theorem Function.arity_translate (function : Function σ) :
    (function.translate translation).arity = function.arity := by
  cases function with
  | native function => rfl
  | closure definition => rfl

/-- A state under a translation. -/
def State.translate (state : State σ) : State τ where
  heap := state.heap
  functions := state.functions.map (Function.translate translation)
  calls := state.calls.map (Call.translate translation)
  sink := state.sink

/-- How an evaluation ends, under a translation, with another view of its value. -/
def Outcome.translate (view : α → β) : Outcome σ α → Outcome τ β
  | .done value state => .done (view value) (state.translate translation)
  | .interrupted interrupt state =>
    .interrupted (interrupt.translate translation) (state.translate translation)
  | .exhausted => .exhausted

namespace State

variable (state : State σ)

theorem function?_translate (id : FunctionId) :
    (state.translate translation).function? id =
      (state.function? id).map (Function.translate translation) :=
  Array.getElem?_map

theorem length_calls_translate : (state.translate translation).calls.length = state.calls.length :=
  List.length_map _

theorem pushFunction_translate (function : Function σ) :
    (state.translate translation).pushFunction (function.translate translation) =
      ((state.pushFunction function).1, (state.pushFunction function).2.translate translation) := by
  simp [pushFunction, translate]

theorem pushCall_translate (call : Call σ) :
    (state.translate translation).pushCall (call.translate translation) =
      (state.pushCall call).translate translation := rfl

theorem popCall_translate :
    (state.translate translation).popCall = state.popCall.translate translation := by
  simp [popCall, translate]

end State

/-! ## Actions -/

/-- The result of an action and the state after it, under a translation. -/
def Action.translateResult (view : α → β) :
    Except (RuntimeError σ) α × State σ → Except (RuntimeError τ) β × State τ
  | (.ok value, state) => (.ok (view value), state.translate translation)
  | (.error error, state) => (.error (error.translate translation), state.translate translation)

/-- An action under a translation that gives another view of the result. -/
inductive Action.Mirrors :
    {α β : Type} → (α → β) → Action σ α → Action τ β → Prop
  | lookup {site : σ} {scope : FrameId} {name : String} :
      Mirrors id (.lookup site scope name) (.lookup (translation.site site) scope name)
  | member {frame : FrameId} {name : String} :
      Mirrors id (.member frame name) (.member frame name)
  | element {site : σ} {object key : Value} :
      Mirrors id (.element site object key) (.element (translation.site site) object key)
  | apply {site : σ} {operator : BinaryOperator} {left right : Value} :
      Mirrors id (.apply site operator left right)
        (.apply (translation.site site) operator left right)
  | display {value : Value} : Mirrors id (.display value) (.display value)
  | length? {value : Value} : Mirrors id (.length? value) (.length? value)
  | enter {scope : FrameId} : Mirrors id (.enter scope) (.enter scope)
  | declare {site : σ} {scope : FrameId} {name : String} {declared : TypeTag} {value : Value} :
      Mirrors id (.declare site scope name declared value)
        (.declare (translation.site site) scope name declared value)
  | assign {site : σ} {scope : FrameId} {name : String} {value : Value} :
      Mirrors id (.assign site scope name value)
        (.assign (translation.site site) scope name value)
  | setMember {site : σ} {frame : FrameId} {name : String} {value : Value} :
      Mirrors id (.setMember site frame name value)
        (.setMember (translation.site site) frame name value)
  | bindDefinition {site : σ} {scope : FrameId} {name : String} {value : Value} :
      Mirrors id (.bindDefinition site scope name value)
        (.bindDefinition (translation.site site) scope name value)
  | pushFunction {function : Function σ} :
      Mirrors id (.pushFunction function) (.pushFunction (function.translate translation))
  | function? {id : FunctionId} :
      Mirrors (Option.map (Function.translate translation)) (.function? id) (.function? id)
  | write {site : σ} {text : String} :
      Mirrors id (.write site text) (.write (translation.site site) text)
  | raise {fault : Fault} {site : σ} :
      Mirrors id (.raise fault site) (.raise fault (translation.site site))

theorem State.answer_translate (state : State σ) (site : σ) (result : Except Fault α) :
    (state.translate translation).answer (translation.site site) result =
      Action.translateResult translation id (state.answer site result) := by
  cases result with
  | ok value => rfl
  | error fault => rfl

theorem State.changeHeap_translate (state : State σ) (site : σ)
    (operation : Heap → Heap.Change) :
    (state.translate translation).changeHeap (translation.site site) operation =
      Action.translateResult translation id (state.changeHeap site operation) := by
  rw [changeHeap, changeHeap, translate]
  dsimp only
  obtain _ | _ := operation state.heap
  · rfl
  · rfl

theorem State.write_translate (state : State σ) (site : σ) (text : String) :
    (state.translate translation).write (translation.site site) text =
      Action.translateResult translation id (state.write site text) := by
  rw [write, write, translate]
  dsimp only
  split
  · rfl
  · rfl

end Translate

theorem Action.Mirrors.run_eq {translation : Translation σ τ} {view : α → β} {action : Action σ α}
    {mirror : Action τ β} (h : Mirrors translation view action mirror) (state : State σ) :
    mirror.run (state.translate translation) =
      translateResult translation view (action.run state) := by
  cases h with
  | lookup | element | apply | raise =>
      rw [run, run]
      exact state.answer_translate translation _ _
  | declare | assign | setMember | bindDefinition =>
      rw [run, run]
      exact state.changeHeap_translate translation _ _
  | write =>
      rw [run, run]
      exact state.write_translate translation _ _
  | pushFunction =>
      rw [run, run, State.pushFunction_translate]
      rfl
  | function? =>
      rw [run, run, State.function?_translate]
      rfl
  | member | display | length? | enter => rfl

/-! ## Comparisons -/

/-- A comparison of outcomes that is kept when both go on from their values. -/
structure Comparison (σ : Type) where
  Holds : {α : Type} → Outcome σ α → Outcome σ α → Prop
  refl : ∀ {α : Type} (outcome : Outcome σ α), Holds outcome outcome
  goOn : ∀ {α β : Type} {value : α} {middle : State σ} {other : Outcome σ α}
    {outcome : Outcome σ β} {next : α → State σ → Outcome σ β},
    Holds (.done value middle) other → Holds outcome (next value middle) →
    Holds outcome (other.andThen next)
  interrupted : ∀ {α β : Type} {interrupt : Interrupt σ} {middle : State σ}
    {other : Outcome σ α} {next : α → State σ → Outcome σ β},
    Holds (.interrupted interrupt middle) other →
    Holds (.interrupted interrupt middle) (other.andThen next)
  exhausted : ∀ {α β : Type} {other : Outcome σ α} {next : α → State σ → Outcome σ β},
    Holds .exhausted other → Holds .exhausted (other.andThen next)
  congr : ∀ {α β : Type} {outcome other : Outcome σ α} {change : Outcome σ α → Outcome σ β},
    change .exhausted = .exhausted → Holds outcome other → Holds (change outcome) (change other)

namespace Comparison

/-- The two outcomes are the same. -/
def same : Comparison σ where
  Holds outcome other := outcome = other
  refl _ := rfl
  goOn h hnext := by
    subst h
    exact hnext
  interrupted h := by
    subst h
    rfl
  exhausted h := by
    subst h
    rfl
  congr {_ _ _ _ change} _ h := congrArg change h

/-- The first outcome may lack budget that the second has. -/
def shorter : Comparison σ where
  Holds outcome other := outcome.Persists other
  refl _ _ := rfl
  goOn h hnext := by
    rw [h nofun]
    exact hnext
  interrupted h := by
    rw [h nofun]
    exact fun _ => rfl
  exhausted _ hend := (hend rfl).elim
  congr hchange h := .congr hchange h

/-- The second outcome may lack budget that the first has. -/
def longer : Comparison σ where
  Holds outcome other := other.Persists outcome
  refl _ _ := rfl
  goOn {_ _ _ _ other _ _} h hnext := by
    cases other with
    | done value middle =>
        cases h nofun
        exact hnext
    | interrupted interrupt middle => cases h nofun
    | exhausted => exact fun hend => (hend rfl).elim
  interrupted {_ _ _ _ other _} h := by
    cases other with
    | done value middle => cases h nofun
    | interrupted interrupt middle =>
        cases h nofun
        exact fun _ => rfl
    | exhausted => exact fun hend => (hend rfl).elim
  exhausted {_ _ other _} h := by
    cases other with
    | done value middle => cases h nofun
    | interrupted interrupt middle => cases h nofun
    | exhausted => exact fun hend => (hend rfl).elim
  congr hchange h := .congr hchange h

end Comparison

/-! ## Plans -/

namespace Eval

/-- A way to evaluate and another one that is to mirror it under a translation, with the
comparison of how they end. -/
structure Mirroring {σ τ : Type} (translation : Translation σ τ) where
  comparison : Comparison τ
  evaluate : Evaluator σ
  mirrored : Evaluator τ

variable {translation : Translation σ τ} {mirroring : Mirroring translation}

/-- Trees under the translation end as the trees do, under the translation. -/
def MirrorsTrees (mirroring : Mirroring translation) : Prop :=
  ∀ tree scope state,
    mirroring.comparison.Holds
      ((mirroring.evaluate tree scope state).translate translation id)
      (mirroring.mirrored (tree.translate translation) scope
        (state.translate translation))

/-- A plan that ends as another does, under the translation and with another view of its
value. -/
def Mirrors (mirroring : Mirroring translation) (view : α → β) (plan : Eval σ α)
    (mirror : Eval τ β) : Prop :=
  ∀ state,
    mirroring.comparison.Holds
      ((plan.run mirroring.evaluate state).translate translation view)
      (mirror.run mirroring.mirrored (state.translate translation))

theorem mirrors_give (value : α) : Mirrors mirroring id (give value) (give value) :=
  fun _ => mirroring.comparison.refl _

theorem mirrors_leave (exit : Exit σ) :
    Mirrors mirroring id (leave exit : Eval σ α) (leave (exit.translate translation)) :=
  fun _ => mirroring.comparison.refl _

theorem mirrors_exhausted : Mirrors mirroring id (exhausted : Eval σ α) exhausted :=
  fun _ => mirroring.comparison.refl _

theorem Mirrors.bind {view : α → β} {view' : γ → δ} {plan : Eval σ α} {mirror : Eval τ β}
    {continuation : α → Eval σ γ} {mirrored : β → Eval τ δ}
    (h : Mirrors mirroring view plan mirror)
    (hnext : ∀ value, Mirrors mirroring view' (continuation value) (mirrored (view value))) :
    Mirrors mirroring view' (plan >>= continuation) (mirror >>= mirrored) := by
  intro state
  have hfirst := h state
  rw [run_bind, run_bind]
  cases hrun : plan.run mirroring.evaluate state with
  | done value after =>
      rw [hrun] at hfirst
      exact mirroring.comparison.goOn hfirst (hnext value after)
  | interrupted interrupt after =>
      rw [hrun] at hfirst
      exact mirroring.comparison.interrupted hfirst
  | exhausted =>
      rw [hrun] at hfirst
      exact mirroring.comparison.exhausted hfirst

theorem mirrors_visit (h : MirrorsTrees mirroring) (tree : Tree σ) (scope : FrameId) :
    Mirrors mirroring id (visit tree scope)
      (visit (tree.translate translation) scope) := by
  intro state
  rw [run_visit, run_visit]
  exact h tree scope state

theorem mirrors_act {view : α → β} {action : Action σ α} {mirror : Action τ β}
    (h : action.Mirrors translation view mirror) :
    Mirrors mirroring view (act action) (act mirror) := by
  intro state
  rw [run_act, run_act, h.run_eq]
  obtain ⟨error | result, after⟩ := action.run state
  · exact mirroring.comparison.refl _
  · exact mirroring.comparison.refl _

theorem mirrors_raise (fault : Fault) (site : σ) :
    Mirrors mirroring id (raise fault site : Eval σ α)
      (raise fault (translation.site site)) :=
  fun _ => mirroring.comparison.refl _

theorem mirrors_ite {condition : Prop} [Decidable condition] {view : α → β}
    {plan plan' : Eval σ α} {mirror mirror' : Eval τ β} (h : Mirrors mirroring view plan mirror)
    (h' : Mirrors mirroring view plan' mirror') :
    Mirrors mirroring view (if condition then plan else plan')
      (if condition then mirror else mirror') := by
  split
  · exact h
  · exact h'

/-- What a body gives, or the early exit that it takes, under a translation. -/
def translateAttempt (translation : Translation σ τ) (view : α → β) :
    Except (Exit σ) α → Except (Exit τ) β
  | .ok value => .ok (view value)
  | .error exit => .error (exit.translate translation)

theorem translate_attempted (translation : Translation σ τ) (view : α → β)
    (outcome : Outcome σ α) :
    outcome.attempted.translate translation (translateAttempt translation view) =
      (outcome.translate translation view).attempted := by
  cases outcome with
  | done value after => rfl
  | interrupted interrupt after => cases interrupt <;> rfl
  | exhausted => rfl

theorem translate_popCall (translation : Translation σ τ) (view : α → β) (outcome : Outcome σ α) :
    outcome.popCall.translate translation view =
      (outcome.translate translation view).popCall := by
  cases outcome with
  | done value after => exact congrArg (Outcome.done _) (after.popCall_translate translation).symm
  | interrupted interrupt after =>
      exact congrArg (Outcome.interrupted _) (after.popCall_translate translation).symm
  | exhausted => rfl

theorem Mirrors.attempt {view : α → β} {body : Eval σ α} {mirror : Eval τ β}
    (h : Mirrors mirroring view body mirror) :
    Mirrors mirroring (translateAttempt translation view) (attempt body)
      (attempt mirror) := by
  intro state
  rw [run_attempt, run_attempt, translate_attempted]
  exact mirroring.comparison.congr rfl (h state)

theorem Mirrors.withCall {view : α → β} {body : Eval σ α} {mirror : Eval τ β}
    (h : Mirrors mirroring view body mirror) (call : Call σ) :
    Mirrors mirroring view (withCall call body)
      (withCall (call.translate translation) mirror) := by
  intro state
  have hlength := state.length_calls_translate translation
  obtain hfew | hdeep := Nat.lt_or_ge state.calls.length State.maxCalls
  · rw [run_withCall call body hfew, run_withCall _ mirror (hlength ▸ hfew), translate_popCall,
      State.pushCall_translate]
    exact mirroring.comparison.congr rfl (h (state.pushCall call))
  · rw [Eval.withCall, Eval.withCall, run_calling_of_deep call body _ hdeep,
      run_calling_of_deep _ mirror _ (hlength.symm ▸ hdeep)]
    exact mirroring.comparison.refl _

end Eval

end Script
