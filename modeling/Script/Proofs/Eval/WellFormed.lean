/-
# Well formed stores

In a well formed store every binding holds a value that its declared type accepts, the
index of every frame is right, every frame is enclosed by an older one, and values and
functions refer only to frames and functions that exist. The operations on the heap
check what they must for this to stay so, each in its own way; what they all come down
to is binding a name in a frame or setting a value in one.
-/

import Script.Proofs.Eval.Discipline
import Script.Proofs.Heap.Path

namespace Script

variable {σ : Type}

theorem TypeTag.accepts_tag (value : Value) : value.tag.accepts value = true := by
  cases value with
  | number number => cases number <;> rfl
  | _ => rfl

/-! ## Frames -/

/-- What holds of a frame at a place of a well formed store, in which values refer only to
what exists. -/
structure Frame.WellFormed (refers : Value → Prop) (index : Nat) (frame : Frame) : Prop where
  accepts : ∀ {slot : Nat} {name : String} {binding : Binding}, frame.Binds slot name binding →
    binding.declared.accepts binding.value = true
  refers : ∀ {slot : Nat} {name : String} {binding : Binding}, frame.Binds slot name binding →
    refers binding.value
  indexed : frame.Indexed
  linked : frame.Linked index

namespace Frame.WellFormed

variable {refers refers' : Value → Prop} {index slot : Nat} {frame : Frame} {name : String}
  {binding : Binding} {value : Value}

theorem imp (h : frame.WellFormed refers index)
    (himp : ∀ {value}, refers value → refers' value) : frame.WellFormed refers' index :=
  ⟨h.accepts, fun hbinds => himp (h.refers hbinds), h.indexed, h.linked⟩

theorem empty {enclosing : Option FrameId} (hlinked : (Frame.empty enclosing).Linked index) :
    (Frame.empty enclosing).WellFormed refers index :=
  ⟨fun hbinds => (not_binds_empty hbinds).elim, fun hbinds => (not_binds_empty hbinds).elim,
    indexed_empty, hlinked⟩

theorem insert (h : frame.WellFormed refers index)
    (haccepts : binding.declared.accepts binding.value = true) (hrefers : refers binding.value) :
    (frame.insert name binding).WellFormed refers index := by
  refine ⟨?_, ?_, h.indexed.insert, ?_⟩
  · intro slot other bound hbinds
    obtain ⟨_, rfl⟩ | hold := binds_of_binds_insert hbinds
    · exact haccepts
    · exact h.accepts hold
  · intro slot other bound hbinds
    obtain ⟨_, rfl⟩ | hold := binds_of_binds_insert hbinds
    · exact hrefers
    · exact h.refers hold
  · rw [Linked, enclosing_insert]
    exact h.linked

theorem setValue (h : frame.WellFormed refers index)
    (hset : frame.setError? slot value = none) (hrefers : refers value) :
    (frame.setValue slot value).WellFormed refers index := by
  refine ⟨?_, ?_, h.indexed.setValue, h.linked⟩
  · intro place name binding hbinds
    obtain ⟨old, hold, rfl⟩ := binds_setValue_iff.mp hbinds
    split
    · next heq =>
      subst heq
      have haccepts : old.declared.accepts value = true :=
        setError?_eq_none_iff.mp hset (bindingAt?_eq_some_iff.mpr ⟨name, hold⟩)
      exact haccepts
    · exact h.accepts hold
  · intro place name binding hbinds
    obtain ⟨old, hold, rfl⟩ := binds_setValue_iff.mp hbinds
    split
    · exact hrefers
    · exact h.refers hold

end Frame.WellFormed

/-! ## Stores -/

namespace Store

/-- A frame exists. -/
def HasFrame (store : Store σ) (id : FrameId) : Prop := id.index < store.heap.frames.size

/-- A function exists. -/
def HasFunction (store : Store σ) (id : FunctionId) : Prop := id.index < store.functions.size

/-- A value refers only to functions and namespaces that exist. -/
def Refers (store : Store σ) : Value → Prop := Value.RefersTo store.HasFunction store.HasFrame

/-- All frames are well formed, the first of them exists, and the functions were defined
in frames that exist. -/
structure WellFormed (store : Store σ) : Prop where
  frames : ∀ {index : Nat} {frame : Frame}, store.heap.frames[index]? = some frame →
    frame.WellFormed store.Refers index
  globals : store.HasFrame State.globals
  scopes : ∀ {id : FunctionId} {closure : Closure σ},
    store.function? id = some (.closure closure) → store.HasFrame closure.scope

theorem HasFunction.mono {store after : Store σ} {id : FunctionId} (hgrows : store.Grows after)
    (h : store.HasFunction id) : after.HasFunction id := by
  have hfunction : store.function? id = some store.functions[id.index] :=
    Array.getElem?_eq_getElem h
  exact (Array.getElem?_eq_some_iff.mp (hgrows.functions hfunction)).1

theorem HasFrame.mono {store after : Store σ} {id : FrameId} (hgrows : store.Grows after)
    (h : store.HasFrame id) : after.HasFrame id :=
  Nat.lt_of_lt_of_le h hgrows.frames

theorem Refers.mono {store after : Store σ} {value : Value} (hgrows : store.Grows after)
    (h : store.Refers value) : after.Refers value :=
  Value.RefersTo.imp (HasFunction.mono hgrows) (HasFrame.mono hgrows) h

namespace WellFormed

variable {store : Store σ} {id : FrameId} {name : String} {value : Value}

theorem frame (h : store.WellFormed) (hid : store.HasFrame id) :
    (store.heap.frame id).WellFormed store.Refers id.index := by
  have hframe : store.heap.frames[id.index]? = some store.heap.frames[id.index] :=
    Array.getElem?_eq_getElem hid
  rw [Heap.frame_eq_of_getElem? hframe]
  exact h.frames hframe

/-- Whatever a frame binds refers to what exists. -/
theorem refers {slot : Nat} {binding : Binding} (h : store.WellFormed)
    (hbinds : (store.heap.frame id).Binds slot name binding) : store.Refers binding.value :=
  (h.frames (Heap.getElem?_frames_of_binds hbinds)).refers hbinds

theorem linked (h : store.WellFormed) : store.heap.Linked :=
  fun _ _ hframe => (h.frames hframe).linked

/-- Changing one frame keeps a store well formed if the frame stays so. -/
theorem modify {change : Frame → Frame} (h : store.WellFormed)
    (hchange : (store.heap.frame id).WellFormed store.Refers id.index →
      (change (store.heap.frame id)).WellFormed store.Refers id.index) :
    Store.WellFormed { store with heap := ⟨store.heap.frames.modify id.index change⟩ } := by
  have hgrows : store.Grows { store with heap := ⟨store.heap.frames.modify id.index change⟩ } :=
    .of_size_eq (Array.size_modify ..)
  refine ⟨?_, h.globals.mono hgrows, fun hclosure => (h.scopes hclosure).mono hgrows⟩
  intro index frame hframe
  rw [Array.getElem?_modify] at hframe
  split at hframe
  · next heq =>
    subst heq
    obtain ⟨old, hold, rfl⟩ := Option.map_eq_some_iff.mp hframe
    rw [Heap.frame_eq_of_getElem? hold] at hchange
    exact (hchange (h.frames hold)).imp (Refers.mono hgrows)
  · exact (h.frames hframe).imp (Refers.mono hgrows)

theorem insert {binding : Binding} (h : store.WellFormed)
    (haccepts : binding.declared.accepts binding.value = true)
    (hrefers : store.Refers binding.value) :
    Store.WellFormed { store with heap := store.heap.insert id name binding } :=
  h.modify fun hframe => hframe.insert haccepts hrefers

theorem define (h : store.WellFormed) (hrefers : store.Refers value) :
    Store.WellFormed { store with heap := store.heap.define id name value } :=
  h.insert (TypeTag.accepts_tag value) hrefers

theorem setValue {slot : Nat} (h : store.WellFormed)
    (hset : (store.heap.frame id).setError? slot value = none) (hrefers : store.Refers value) :
    Store.WellFormed { store with heap := store.heap.setValue id slot value } :=
  h.modify fun hframe => hframe.setValue hset hrefers

theorem pushFrame (h : store.WellFormed) (hid : store.HasFrame id) :
    (store.pushFrame id).WellFormed := by
  have hgrows := Grows.pushFrame store id
  refine ⟨?_, h.globals.mono hgrows, fun hclosure => (h.scopes hclosure).mono hgrows⟩
  intro index frame hframe
  change (store.heap.frames.push _)[index]? = some frame at hframe
  rw [Array.getElem?_push] at hframe
  split at hframe
  · next heq =>
    subst heq
    cases hframe
    exact .empty hid
  · exact (h.frames hframe).imp (Refers.mono hgrows)

theorem pushFunction {function : Function σ} (h : store.WellFormed)
    (hscope : ∀ {closure}, function = .closure closure → store.HasFrame closure.scope) :
    (store.pushFunction function).WellFormed := by
  have hgrows := Grows.pushFunction store function
  refine ⟨fun hframe => (h.frames hframe).imp (Refers.mono hgrows), h.globals, ?_⟩
  intro id closure hclosure
  rw [function?, Store.pushFunction, Array.getElem?_push] at hclosure
  split at hclosure
  · exact hscope (Option.some.inj hclosure)
  · exact h.scopes hclosure

end WellFormed

theorem hasFunction_pushFunction (store : Store σ) (function : Function σ) :
    (store.pushFunction function).HasFunction ⟨store.functions.size⟩ := by
  rw [HasFunction, pushFunction, Array.size_push]
  exact Nat.lt_succ_self _

theorem hasFrame_pushFrame (store : Store σ) (id : FrameId) :
    (store.pushFrame id).HasFrame (store.heap.push (some id)).1 := by
  change store.heap.frames.size < (store.heap.frames.push _).size
  rw [Array.size_push]
  exact Nat.lt_succ_self _

end Store

/-! ## The discipline -/

/-- The discipline of well formed stores: code runs in frames that exist. -/
def Discipline.wellFormed : Discipline σ where
  rules := .free
  sound := Store.WellFormed
  scope := Store.HasFrame
  space := Store.HasFrame
  function := Store.HasFunction
  scope_mono := Store.HasFrame.mono
  space_mono := Store.HasFrame.mono
  function_mono := Store.HasFunction.mono
  scope_of_function h _ hclosure := h.scopes hclosure
  lookup h _ hget := by
    obtain ⟨_, _, _, _, hbinding, rfl⟩ := Heap.get_eq_ok_iff.mp hget
    obtain ⟨_, hbinds⟩ := Frame.bindingAt?_eq_some_iff.mp hbinding
    exact h.refers hbinds
  member h _ hbinding := by
    obtain ⟨_, _, hbinds⟩ := Frame.exists_binds_of_binding? hbinding
    exact h.refers hbinds
  enter h hid := ⟨h.pushFrame hid, Store.hasFrame_pushFrame _ _, Store.hasFrame_pushFrame _ _⟩
  declare h _ hrefers hdeclare := by
    obtain ⟨_, haccepts, rfl⟩ := Heap.declare_eq_ok_iff.mp hdeclare
    exact h.insert haccepts hrefers
  assign h _ hrefers hassign := by
    obtain ⟨_, _, _, hset, rfl⟩ := Heap.assign_eq_ok_iff.mp hassign
    exact h.setValue hset hrefers
  setMember h _ hrefers hmember := by
    obtain ⟨_, rfl⟩ | ⟨_, _, hset, rfl⟩ := Heap.setLocal_eq_ok_iff.mp hmember
    · exact h.define hrefers
    · exact h.setValue hset hrefers
  bindDefinition h _ hrefers hbind := by
    obtain ⟨_, rfl⟩ := Heap.bindDefinition_eq_ok_iff.mp hbind
    exact h.define hrefers
  pushFunction h hscope :=
    ⟨h.pushFunction fun heq => by cases heq; exact hscope, Store.hasFunction_pushFunction _ _⟩

end Script
