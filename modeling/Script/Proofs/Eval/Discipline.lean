/-
# Disciplines

A discipline is a property of sessions that evaluation keeps: of the store, of the
frames in which code runs, of the functions and namespaces that values refer to, and of
the trees that run. It is given with the reasons why each action keeps it. A plan is
safe for a discipline if it asks only for what the discipline allows, whatever it gets
in return; running a safe plan keeps the discipline, however the run ends.
-/

import Script.Eval.Run
import Script.Proofs.Eval.Action
import Script.Proofs.Eval.Store
import Script.Proofs.Syntax.Rules
import Script.Proofs.Value.Reference

namespace Script

variable {σ α β : Type}

/-- A property of sessions: the rules that trees obey, what holds of the store, of the
frames in which code runs, of the frames of namespaces and of functions. -/
structure Property (σ : Type) where
  rules : Rules σ
  sound : Store σ → Prop
  scope : Store σ → FrameId → Prop
  space : Store σ → FrameId → Prop
  function : Store σ → FunctionId → Prop

/-- What holds of a value: it refers only to functions and namespaces for which the
property holds. -/
def Property.value (property : Property σ) (store : Store σ) : Value → Prop :=
  Value.RefersTo (property.function store) (property.space store)

/-- A property that actions keep. -/
structure Discipline (σ : Type) extends Property σ where
  scope_mono {store after : Store σ} {id : FrameId} :
    store.Grows after → scope store id → scope after id
  space_mono {store after : Store σ} {id : FrameId} :
    store.Grows after → space store id → space after id
  function_mono {store after : Store σ} {id : FunctionId} :
    store.Grows after → function store id → function after id
  scope_of_function {store : Store σ} {id : FunctionId} {closure : Closure σ} :
    sound store → function store id → store.function? id = some (.closure closure) →
    scope store closure.scope
  lookup {store : Store σ} {id : FrameId} {name : String} {value : Value} :
    sound store → scope store id → store.heap.get id name = .ok value →
    toProperty.value store value
  member {store : Store σ} {id : FrameId} {name : String} {binding : Binding} :
    sound store → space store id → store.heap.binding? id name = some binding →
    toProperty.value store binding.value
  enter {store : Store σ} {id : FrameId} : sound store → scope store id →
    sound (store.pushFrame id) ∧ scope (store.pushFrame id) (store.heap.push (some id)).1 ∧
      space (store.pushFrame id) (store.heap.push (some id)).1
  declare {store : Store σ} {id : FrameId} {name : String} {value : Value} {declared : TypeTag}
    {heap : Heap} : sound store → scope store id → toProperty.value store value →
    store.heap.declare id name value declared = .ok heap → sound { store with heap }
  assign {store : Store σ} {id : FrameId} {name : String} {value : Value} {heap : Heap} :
    sound store → scope store id → toProperty.value store value →
    store.heap.assign id name value = .ok heap → sound { store with heap }
  setMember {store : Store σ} {id : FrameId} {name : String} {value : Value} {heap : Heap} :
    sound store → space store id → toProperty.value store value →
    store.heap.setLocal id name value = .ok heap → sound { store with heap }
  bindDefinition {store : Store σ} {id : FrameId} {name : String} {value : Value} {heap : Heap} :
    sound store → scope store id → toProperty.value store value →
    store.heap.bindDefinition id name value = .ok heap → sound { store with heap }
  pushFunction {store : Store σ} {closure : Closure σ} :
    sound store → scope store closure.scope →
    sound (store.pushFunction (.closure closure)) ∧
      function (store.pushFunction (.closure closure)) ⟨store.functions.size⟩

namespace Discipline

variable (discipline : Discipline σ)

/-- The discipline is kept in a store: it is sound, and the bodies of its functions obey
the rules. -/
structure Kept (store : Store σ) : Prop where
  sound : discipline.sound store
  bodies : ∀ {id : FunctionId} {closure : Closure σ},
    store.function? id = some (.closure closure) →
    closure.body.Obeys discipline.rules .function

/-- What an action needs in order to keep the discipline. -/
def Allows (store : Store σ) : Action σ α → Prop
  | .lookup site scope _ => discipline.rules.site site ∧ discipline.scope store scope
  | .member frame _ => discipline.space store frame
  | .element site object _ => discipline.rules.site site ∧ discipline.value store object
  | .apply site _ left right =>
    discipline.rules.site site ∧ discipline.value store left ∧ discipline.value store right
  | .display _ | .length? _ => True
  | .enter scope => discipline.scope store scope
  | .declare site scope _ _ value | .assign site scope _ value
  | .bindDefinition site scope _ value =>
    discipline.rules.site site ∧ discipline.scope store scope ∧ discipline.value store value
  | .setMember site frame _ value =>
    discipline.rules.site site ∧ discipline.space store frame ∧ discipline.value store value
  | .pushFunction (.closure closure) =>
    discipline.scope store closure.scope ∧ closure.body.Obeys discipline.rules .function
  | .pushFunction (.native _) => False
  | .function? id => discipline.function store id
  | .write site _ => discipline.rules.site site
  | .raise fault site =>
    discipline.rules.site site ∧ (discipline.rules.exits → fault.isStray = false)

/-- What holds of the result of an action that was allowed. -/
def Yields (store : Store σ) : Action σ α → α → Prop
  | .lookup .., value | .member .., value | .element .., value | .apply .., value =>
    discipline.value store value
  | .enter _, id => discipline.scope store id ∧ discipline.space store id
  | .pushFunction _, id => discipline.function store id
  | .function? _, function => ∀ closure, function = some (.closure closure) →
    discipline.scope store closure.scope ∧ closure.body.Obeys discipline.rules .function
  | .display _, _ | .length? _, _ | .declare .., _ | .assign .., _ | .setMember .., _
  | .bindDefinition .., _ | .write .., _ | .raise .., _ => True

/-- What holds of an early exit from a tree. -/
def Exits (enclosure : Enclosure) (exit : Exit σ) (store : Store σ) : Prop :=
  match exit with
  | .returned value site =>
    discipline.rules.site site ∧ discipline.rules.MayReturn enclosure ∧
      discipline.value store value
  | .breaking site | .continuing site =>
    discipline.rules.site site ∧ discipline.rules.MayLeaveLoop enclosure

/-- What holds of an error. -/
structure Errs (error : RuntimeError σ) : Prop where
  site : discipline.rules.site error.site
  notStray : discipline.rules.exits → error.fault.isStray = false

variable {discipline}

theorem value_mono {store after : Store σ} {value : Value} (hgrows : store.Grows after)
    (h : discipline.value store value) : discipline.value after value :=
  Value.RefersTo.imp (discipline.function_mono hgrows) (discipline.space_mono hgrows) h

/-- The discipline that asks for nothing but some rules for trees. -/
def ofRules (rules : Rules σ) : Discipline σ where
  rules := rules
  sound _ := True
  scope _ _ := True
  space _ _ := True
  function _ _ := True
  scope_mono _ _ := trivial
  space_mono _ _ := trivial
  function_mono _ _ := trivial
  scope_of_function _ _ _ := trivial
  lookup _ _ _ := Value.refersTo_trivial
  member _ _ _ := Value.refersTo_trivial
  enter _ _ := ⟨trivial, trivial, trivial⟩
  declare _ _ _ _ := trivial
  assign _ _ _ _ := trivial
  setMember _ _ _ _ := trivial
  bindDefinition _ _ _ _ := trivial
  pushFunction _ _ := ⟨trivial, trivial⟩

/-! ## Actions -/

/-- Changing the heap keeps the functions, and with them the rules for their bodies. -/
theorem Kept.of_heap {store : Store σ} {heap : Heap} (h : discipline.Kept store)
    (hsound : discipline.sound { store with heap }) : discipline.Kept { store with heap } :=
  ⟨hsound, h.bodies⟩

theorem Kept.pushFunction {store : Store σ} {closure : Closure σ} (h : discipline.Kept store)
    (hscope : discipline.scope store closure.scope)
    (hbody : closure.body.Obeys discipline.rules .function) :
    discipline.Kept (store.pushFunction (.closure closure)) := by
  refine ⟨(discipline.pushFunction h.sound hscope).1, ?_⟩
  intro id definition hdefinition
  rw [Store.function?, Store.pushFunction, Array.getElem?_push] at hdefinition
  split at hdefinition
  · cases hdefinition
    exact hbody
  · exact h.bodies hdefinition

/-- An allowed action that succeeds keeps the discipline. -/
theorem Kept.action {action : Action σ α} {state after : State σ} {result : α}
    (h : discipline.Kept state.store) (hallows : discipline.Allows state.store action)
    (hrun : action.run state = (.ok result, after)) :
    discipline.Kept after.store ∧ discipline.Yields after.store action result := by
  cases action with
  | lookup site scope name =>
      obtain ⟨hget, rfl⟩ := State.answer_eq_ok_iff.mp hrun
      have hvalue := discipline.lookup h.sound hallows.2 (Except.mapError_eq_ok_iff.mp hget)
      exact ⟨h, hvalue⟩
  | member frame name =>
      cases hrun
      refine ⟨h, ?_⟩
      cases hbinding : state.heap.binding? frame name with
      | none => trivial
      | some binding => exact discipline.member h.sound hallows hbinding
  | element site object key =>
      obtain ⟨hindex, rfl⟩ := State.answer_eq_ok_iff.mp hrun
      refine ⟨h, ?_⟩
      exact Value.refersTo_of_index (Except.mapError_eq_ok_iff.mp hindex) hallows.2
        fun hspace hbinding => discipline.member h.sound hspace hbinding
  | apply site operator left right =>
      obtain ⟨happly, rfl⟩ := State.answer_eq_ok_iff.mp hrun
      refine ⟨h, ?_⟩
      exact Value.refersTo_of_apply (Except.mapError_eq_ok_iff.mp happly) hallows.2.1 hallows.2.2
  | display value | length? value =>
      cases hrun
      exact ⟨h, trivial⟩
  | enter scope =>
      cases hrun
      obtain ⟨hsound, hscope, hspace⟩ := discipline.enter h.sound hallows
      exact ⟨h.of_heap hsound, hscope, hspace⟩
  | declare site scope name declared value =>
      rw [Action.run] at hrun
      obtain ⟨heap, hheap, rfl⟩ := State.changeHeap_eq_ok_iff.mp hrun
      exact ⟨h.of_heap (discipline.declare h.sound hallows.2.1 hallows.2.2 hheap), trivial⟩
  | assign site scope name value =>
      rw [Action.run] at hrun
      obtain ⟨heap, hheap, rfl⟩ := State.changeHeap_eq_ok_iff.mp hrun
      exact ⟨h.of_heap (discipline.assign h.sound hallows.2.1 hallows.2.2 hheap), trivial⟩
  | setMember site frame name value =>
      rw [Action.run] at hrun
      obtain ⟨heap, hheap, rfl⟩ := State.changeHeap_eq_ok_iff.mp hrun
      exact ⟨h.of_heap (discipline.setMember h.sound hallows.2.1 hallows.2.2 hheap), trivial⟩
  | bindDefinition site scope name value =>
      rw [Action.run] at hrun
      obtain ⟨heap, hheap, rfl⟩ := State.changeHeap_eq_ok_iff.mp hrun
      exact ⟨h.of_heap (discipline.bindDefinition h.sound hallows.2.1 hallows.2.2 hheap), trivial⟩
  | pushFunction function =>
      cases function with
      | native native => exact hallows.elim
      | closure closure =>
          cases hrun
          have hfunction := (discipline.pushFunction h.sound hallows.1).2
          exact ⟨h.pushFunction hallows.1 hallows.2, hfunction⟩
  | function? id =>
      cases hrun
      refine ⟨h, ?_⟩
      intro closure hclosure
      exact ⟨discipline.scope_of_function h.sound hallows hclosure, h.bodies hclosure⟩
  | write site text =>
      rw [Action.run] at hrun
      obtain ⟨_, rfl⟩ := State.write_eq_ok_iff.mp hrun
      exact ⟨h, trivial⟩
  | raise fault site => cases result

/-- The error of an allowed action keeps the discipline. -/
theorem errs_of_allows {action : Action σ α} {state after : State σ} {error : RuntimeError σ}
    (hallows : discipline.Allows state.store action)
    (hrun : action.run state = (.error error, after)) : discipline.Errs error := by
  obtain ⟨_, _, hblames⟩ := Action.run_eq_error hrun
  cases action with
  | raise fault site =>
      obtain ⟨hsite, hfault⟩ := hblames
      constructor
      · rw [hsite]
        exact hallows.1
      · rw [hfault]
        exact hallows.2
  | lookup site scope name | element site object key | apply site operator left right
  | declare site scope name declared value | assign site scope name value
  | setMember site frame name value | bindDefinition site scope name value =>
      obtain ⟨hsite, problem, hfault⟩ := hblames
      constructor
      · rw [hsite]
        exact hallows.1
      · rw [hfault]
        exact fun _ => rfl
  | write site text =>
      obtain ⟨hsite, hfault⟩ := hblames
      constructor
      · rw [hsite]
        exact hallows
      · rw [hfault]
        exact fun _ => rfl
  | _ => exact hblames.elim

end Discipline

end Script
