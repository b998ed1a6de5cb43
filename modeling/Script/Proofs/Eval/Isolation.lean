/-
# Isolation of frames

A frame is reachable from others if links outwards and the values that reachable frames
bind lead to it. Evaluation changes no frame that existed before and is not reachable
from the frame in which it began, and a call changes none that is reachable neither from
the frame in which the function was defined nor from the arguments. What carries this is
a region: the frames that were reachable at the beginning, and those made since. Code
that runs in the region, with values that lead only into it, never gets out of it.
-/

import Script.Proofs.Eval.Change
import Script.Proofs.Eval.Form
import Script.Proofs.Eval.WellFormed

namespace Script

variable {σ : Type}

/-! ## Reachability -/

namespace Store

/-- A value leads to the frame of a namespace, to the frame in which a function was
defined, or to where an item of a list leads. -/
inductive Leads (store : Store σ) : Value → FrameId → Prop
  | space {name : String} {frame : FrameId} : Leads store (.space name frame) frame
  | function {name : String} {id : FunctionId} {closure : Closure σ} :
      store.function? id = some (.closure closure) →
      Leads store (.function name id) closure.scope
  | item {items : List Value} {item : Value} {frame : FrameId} :
      item ∈ items → Leads store item frame → Leads store (.list items) frame

/-- The frames that are reachable from roots, along links outwards and through the values
of bindings. -/
inductive Reaches (store : Store σ) (roots : FrameId → Prop) : FrameId → Prop
  | root {id : FrameId} : roots id → Reaches store roots id
  | outwards {id outer : FrameId} :
      Reaches store roots id → (store.heap.frame id).enclosing = some outer →
      Reaches store roots outer
  | bound {id other : FrameId} {slot : Nat} {name : String} {binding : Binding} :
      Reaches store roots id → (store.heap.frame id).Binds slot name binding →
      store.Leads binding.value other → Reaches store roots other

/-- A later store has every frame as it was that existed before and was not reachable. -/
def Spares (before after : Store σ) (roots : FrameId → Prop) : Prop :=
  ∀ id, before.HasFrame id → ¬ before.Reaches roots id →
    after.heap.frames[id.index]? = before.heap.frames[id.index]?

/-! ## Regions -/

/-- The frames that were reachable in an earlier store, or were made since. -/
def Region (origin : Store σ) (roots : FrameId → Prop) (id : FrameId) : Prop :=
  origin.heap.frames.size ≤ id.index ∨ origin.Reaches roots id

/-- The functions that were made since an earlier store, or were defined in a frame that
was reachable there. -/
def RegionFunction (origin : Store σ) (roots : FrameId → Prop) (id : FunctionId) : Prop :=
  origin.functions.size ≤ id.index ∨ ∀ closure, origin.function? id = some (.closure closure) →
    origin.Reaches roots closure.scope

/-- What leads only to reachable frames refers only to what is in the region. -/
theorem refersTo_region {origin : Store σ} {roots : FrameId → Prop} :
    ∀ {value : Value}, (∀ id, origin.Leads value id → origin.Reaches roots id) →
      value.RefersTo (origin.RegionFunction roots) (origin.Region roots)
  | .list items, h => Value.refersTo_list_iff.mpr fun item hitem =>
      refersTo_region fun id hleads => h id (.item hitem hleads)
  | .function _ _, h => .inr fun _ hclosure => h _ (.function hclosure)
  | .space _ _, h => .inr (h _ .space)
  | .number _, _ | .boolean _, _ | .string _, _ | .nil, _ => trivial

/-- Since an earlier store nothing outside the region was changed, and nothing in it leads
out of it. -/
structure Isolated (origin : Store σ) (roots : FrameId → Prop) (store : Store σ) : Prop where
  grows : origin.Grows store
  spares : origin.Spares store roots
  outwards : ∀ {id outer : FrameId}, origin.Region roots id →
    (store.heap.frame id).enclosing = some outer → origin.Region roots outer
  bound : ∀ {id : FrameId} {slot : Nat} {name : String} {binding : Binding},
    origin.Region roots id → (store.heap.frame id).Binds slot name binding →
    binding.value.RefersTo (origin.RegionFunction roots) (origin.Region roots)
  made : ∀ {id : FunctionId} {closure : Closure σ}, origin.functions.size ≤ id.index →
    store.function? id = some (.closure closure) → origin.Region roots closure.scope

namespace Isolated

variable {origin store : Store σ} {roots : FrameId → Prop} {id : FrameId} {name : String}
  {value : Value}

/-- A frame that does not exist yet binds nothing and has no link. -/
theorem frame_of_size_le (h : store.heap.frames.size ≤ id.index) :
    store.heap.frame id = .empty none := by
  rw [Heap.frame, Array.getElem?_eq_none h, Option.getD_none]

/-- A store is isolated from itself. -/
theorem refl (origin : Store σ) (roots : FrameId → Prop) : origin.Isolated roots origin where
  grows := .refl origin
  spares _ _ _ := rfl
  outwards := by
    rintro id outer (hnew | hreaches) houter
    · rw [frame_of_size_le hnew] at houter
      cases houter
    · exact .inr (.outwards hreaches houter)
  bound := by
    rintro id slot name binding (hnew | hreaches) hbinds
    · rw [frame_of_size_le hnew] at hbinds
      exact (Frame.not_binds_empty hbinds).elim
    · exact refersTo_region fun _ hleads => .bound hreaches hbinds hleads
  made := by
    intro id closure hnew hclosure
    rw [function?, Array.getElem?_eq_none hnew] at hclosure
    cases hclosure

/-- The functions of the region were defined in it. -/
theorem region_scope {id : FunctionId} {closure : Closure σ} (h : origin.Isolated roots store)
    (hid : origin.RegionFunction roots id)
    (hclosure : store.function? id = some (.closure closure)) :
    origin.Region roots closure.scope := by
  obtain hnew | hold := hid
  · exact h.made hnew hclosure
  · by_cases hlt : id.index < origin.functions.size
    · -- the function is the one that was there before
      have hfunction : origin.function? id = some origin.functions[id.index] :=
        Array.getElem?_eq_getElem hlt
      have hsame := h.grows.functions hfunction
      rw [hclosure] at hsame
      rw [← hsame] at hfunction
      exact .inr (hold closure hfunction)
    · exact h.made (Nat.le_of_not_lt hlt) hclosure

/-- Changing one frame of the region keeps it isolated if the frame keeps its link and
binds nothing that leads out of the region. -/
theorem modify {change : Frame → Frame} (h : origin.Isolated roots store)
    (hid : origin.Region roots id)
    (henclosing : (change (store.heap.frame id)).enclosing = (store.heap.frame id).enclosing)
    (hbinds : ∀ {slot : Nat} {name : String} {binding : Binding},
      (change (store.heap.frame id)).Binds slot name binding →
      binding.value.RefersTo (origin.RegionFunction roots) (origin.Region roots)) :
    origin.Isolated roots { store with heap := ⟨store.heap.frames.modify id.index change⟩ } where
  grows := h.grows.trans (.of_size_eq (Array.size_modify ..))
  spares := by
    intro other hother hunreached
    have hne : id ≠ other := by
      rintro rfl
      obtain hnew | hreaches := hid
      · exact Nat.not_lt.mpr hnew hother
      · exact hunreached hreaches
    exact (Heap.getElem?_modify_of_ne hne).trans (h.spares other hother hunreached)
  outwards := by
    intro other outer hother houter
    rw [Heap.frame_modify] at houter
    split at houter
    · next heq =>
      obtain ⟨rfl, _⟩ := heq
      rw [henclosing] at houter
      exact h.outwards hother houter
    · exact h.outwards hother houter
  bound := by
    intro other slot name binding hother hbound
    rw [Heap.frame_modify] at hbound
    split at hbound
    · exact hbinds hbound
    · exact h.bound hother hbound
  made := h.made

theorem insert {binding : Binding} (h : origin.Isolated roots store)
    (hid : origin.Region roots id)
    (hvalue : binding.value.RefersTo (origin.RegionFunction roots) (origin.Region roots)) :
    origin.Isolated roots { store with heap := store.heap.insert id name binding } := by
  refine h.modify hid Frame.enclosing_insert ?_
  intro slot other bound hbinds
  obtain ⟨_, rfl⟩ | hold := Frame.binds_of_binds_insert hbinds
  · exact hvalue
  · exact h.bound hid hold

theorem setValue {slot : Nat} (h : origin.Isolated roots store) (hid : origin.Region roots id)
    (hvalue : value.RefersTo (origin.RegionFunction roots) (origin.Region roots)) :
    origin.Isolated roots { store with heap := store.heap.setValue id slot value } := by
  refine h.modify hid rfl ?_
  intro place name binding hbinds
  obtain ⟨old, hold, rfl⟩ := Frame.binds_setValue_iff.mp hbinds
  split
  · exact hvalue
  · exact h.bound hid hold

theorem region_push (h : origin.Isolated roots store) (outer : FrameId) :
    origin.Region roots (store.heap.push (some outer)).1 :=
  .inl h.grows.frames

theorem pushFrame (h : origin.Isolated roots store) (hid : origin.Region roots id) :
    origin.Isolated roots (store.pushFrame id) where
  grows := h.grows.trans (.pushFrame store id)
  spares := by
    intro other hother hunreached
    have hlt : other.index < store.heap.frames.size := hother.mono h.grows
    change (store.heap.frames.push _)[other.index]? = _
    rw [Array.getElem?_push, if_neg (Nat.ne_of_lt hlt)]
    exact h.spares other hother hunreached
  outwards := by
    intro other outer hother houter
    rw [Store.pushFrame, Heap.frame_push] at houter
    split at houter
    · cases houter
      exact hid
    · exact h.outwards hother houter
  bound := by
    intro other slot name binding hother hbinds
    rw [Store.pushFrame, Heap.frame_push] at hbinds
    split at hbinds
    · exact (Frame.not_binds_empty hbinds).elim
    · exact h.bound hother hbinds
  made := h.made

theorem pushFunction {closure : Closure σ} (h : origin.Isolated roots store)
    (hscope : origin.Region roots closure.scope) :
    origin.Isolated roots (store.pushFunction (.closure closure)) where
  grows := h.grows.trans (.pushFunction store _)
  spares := h.spares
  outwards := h.outwards
  bound := h.bound
  made := by
    intro id definition hnew hdefinition
    rw [function?, Store.pushFunction, Array.getElem?_push] at hdefinition
    split at hdefinition
    · cases hdefinition
      exact hscope
    · exact h.made hnew hdefinition

theorem regionFunction_push (h : origin.Isolated roots store) :
    origin.RegionFunction roots ⟨store.functions.size⟩ := by
  refine .inl (Nat.le_of_not_lt fun hlt => ?_)
  -- a function that was there before would still be at its place
  have hfunction := h.grows.functions (Array.getElem?_eq_getElem hlt :
    origin.function? ⟨store.functions.size⟩ = some origin.functions[store.functions.size])
  rw [function?, Array.getElem?_eq_none (Nat.le_refl _)] at hfunction
  cases hfunction

end Isolated

end Store

/-! ## The discipline -/

open Store

/-- The discipline of a region: code runs in it, and values lead only into it. -/
def Discipline.isolated (origin : Store σ) (roots : FrameId → Prop) : Discipline σ where
  rules := .free
  sound := origin.Isolated roots
  scope _ := origin.Region roots
  space _ := origin.Region roots
  function _ := origin.RegionFunction roots
  scope_mono _ h := h
  space_mono _ h := h
  function_mono _ h := h
  scope_of_function h hid hclosure := h.region_scope hid hclosure
  lookup h hid hget := by
    obtain ⟨_, _, _, hlocate, hbinding, rfl⟩ := Heap.get_eq_ok_iff.mp hget
    obtain ⟨_, hbinds⟩ := Frame.bindingAt?_eq_some_iff.mp hbinding
    exact h.bound (Heap.mem_of_locateWithin h.outwards hid hlocate) hbinds
  member h hid hbinding := by
    obtain ⟨_, _, hbinds⟩ := Frame.exists_binds_of_binding? hbinding
    exact h.bound hid hbinds
  enter h hid := ⟨h.pushFrame hid, h.region_push _, h.region_push _⟩
  declare h hid hvalue hdeclare := by
    obtain ⟨_, _, rfl⟩ := Heap.declare_eq_ok_iff.mp hdeclare
    exact h.insert hid hvalue
  assign h hid hvalue hassign := by
    obtain ⟨_, _, hlocate, _, rfl⟩ := Heap.assign_eq_ok_iff.mp hassign
    exact h.setValue (Heap.mem_of_locateWithin h.outwards hid hlocate) hvalue
  setMember h hid hvalue hmember := by
    obtain ⟨_, rfl⟩ | ⟨_, _, _, rfl⟩ := Heap.setLocal_eq_ok_iff.mp hmember
    · exact h.insert hid hvalue
    · exact h.setValue hid hvalue
  bindDefinition h hid hvalue hbind := by
    obtain ⟨_, rfl⟩ := Heap.bindDefinition_eq_ok_iff.mp hbind
    exact h.insert hid hvalue
  pushFunction h hscope := ⟨h.pushFunction hscope, h.regionFunction_push⟩

theorem kept_isolated (origin : Store σ) (roots : FrameId → Prop) :
    (Discipline.isolated origin roots).Kept origin :=
  ⟨.refl origin roots, fun _ => Tree.obeys_free .function _⟩

/-- What keeps the discipline of a region spares all that is outside. -/
theorem Outcome.Keeps.spares {α : Type} {outcome : Outcome σ α} {origin before : Store σ}
    {roots : FrameId → Prop} {onExit : Exit σ → Store σ → Prop} {onValue : α → Store σ → Prop}
    (h : outcome.Keeps (.isolated origin roots) before onExit onValue) :
    outcome.After fun after => origin.Spares after.store roots := by
  cases outcome with
  | done value state => exact h.1.sound.spares
  | interrupted interrupt state =>
      cases interrupt with
      | error error => exact h.1.sound.spares
      | exit exit => exact h.1.sound.spares
  | exhausted => trivial

namespace Eval

/-- The frames that a call begins with: that in which the function was defined, and those
to which arguments lead. -/
def CallRoots (store : Store σ) (closure : Closure σ) (arguments : List Value) (id : FrameId) :
    Prop :=
  id = closure.scope ∨ ∃ argument ∈ arguments, store.Leads argument id

/-- However the evaluation of a tree ends, every frame that existed before and was not
reachable from the frame of the evaluation is as it was. However a call of a defined
function ends, every frame is as it was that existed before and was reachable neither
from the frame in which the function was defined nor from the arguments. -/
theorem spares_unreachable_frames (budget : Nat) :
    (∀ (tree : Tree σ) (scope : FrameId) (state : State σ),
      (evaluate budget tree scope state).After fun after =>
        state.store.Spares after.store (· = scope)) ∧
    ∀ (site : σ) (name : String) (closure : Closure σ) (arguments : List Value)
      (state : State σ),
      ((callFunction site name (.closure closure) arguments).run (evaluate budget) state).After
        fun after => state.store.Spares after.store (CallRoots state.store closure arguments) := by
  constructor
  · intro tree scope state
    have hscope : state.store.Region (· = scope) scope := .inr (.root rfl)
    exact ((Discipline.isolated state.store (· = scope)).evaluate budget (kept_isolated _ _)
      (tree.obeys_free .program) hscope).spares
  · intro site name closure arguments state
    let roots := CallRoots state.store closure arguments
    let discipline := Discipline.isolated state.store roots
    have hscope : state.store.Region roots closure.scope := .inr (.root (.inl rfl))
    have harguments : ∀ value ∈ arguments, discipline.value state.store value :=
      fun value hvalue => refersTo_region fun id hleads =>
        .root (.inr ⟨value, hvalue, hleads⟩)
    have hfunction : ∀ definition, Function.closure closure = .closure definition →
        discipline.scope state.store definition.scope ∧
          definition.body.Obeys discipline.rules .function := by
      rintro _ ⟨⟩
      exact ⟨hscope, Tree.obeys_free .function _⟩
    have hcall : (callFunction site name (.closure closure) arguments).Safe discipline
        (.call site (.breakLoop site) []) (fun _ _ => True) state.store
        fun value after => discipline.value after value :=
      safe_callFunction (kept_isolated state.store roots) trivial hfunction harguments
    exact (hcall.run (discipline.evaluate budget) (kept_isolated state.store roots)).spares

end Eval

end Script
