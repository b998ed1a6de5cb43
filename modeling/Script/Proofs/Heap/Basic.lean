/-
# Operations on the heap

When each operation on the heap succeeds and what it makes of the heap. All of them
change at most one frame, by binding a name or by setting a value, and none of them
makes or drops a frame.
-/

import Script.Proofs.Heap.Frame
import Script.Heap.Basic

namespace Script.Heap

variable {heap after : Heap} {id : FrameId} {name : String} {value : Value}
  {declared : TypeTag}

theorem frame_eq_of_getElem? {frame : Frame} (h : heap.frames[id.index]? = some frame) :
    heap.frame id = frame := by
  rw [Heap.frame, h, Option.getD_some]

/-- Only a frame that exists binds names. -/
theorem getElem?_frames_of_binds {slot : Nat} {binding : Binding}
    (h : (heap.frame id).Binds slot name binding) :
    heap.frames[id.index]? = some (heap.frame id) := by
  cases hframe : heap.frames[id.index]? with
  | some frame => rw [frame_eq_of_getElem? hframe]
  | none =>
      rw [Heap.frame, hframe] at h
      exact (Frame.not_binds_empty h).elim

/-- A frame in a heap in which one frame was changed is the changed one or an old one. -/
theorem frame_modify (heap : Heap) (id other : FrameId) (change : Frame → Frame) :
    (Heap.mk (heap.frames.modify id.index change)).frame other =
      if id = other ∧ id.index < heap.frames.size then change (heap.frame id)
      else heap.frame other := by
  obtain ⟨index⟩ := id
  obtain ⟨place⟩ := other
  simp only [frame, Array.getElem?_modify, FrameId.mk.injEq]
  by_cases hsame : index = place
  · subst hsame
    by_cases hlt : index < heap.frames.size
    · simp [hlt]
    · simp [hlt]
  · simp [hsame]

theorem frame_insert {binding : Binding} (hid : id.index < heap.frames.size) :
    (heap.insert id name binding).frame id = (heap.frame id).insert name binding := by
  rw [insert, frame_modify, if_pos ⟨rfl, hid⟩]

/-- Changing one frame leaves the others as they are. -/
theorem getElem?_modify_of_ne {id other : FrameId} {change : Frame → Frame} (h : id ≠ other) :
    (heap.frames.modify id.index change)[other.index]? = heap.frames[other.index]? := by
  rw [Array.getElem?_modify, if_neg fun hindex => h (congrArg FrameId.mk hindex)]

/-- A new frame is empty, and the others are as they were. -/
theorem frame_push (heap : Heap) (enclosing : Option FrameId) (other : FrameId) :
    (heap.push enclosing).2.frame other =
      if other.index = heap.frames.size then .empty enclosing else heap.frame other := by
  simp only [frame, push, Array.getElem?_push]
  by_cases hindex : other.index = heap.frames.size
  · simp [hindex]
  · simp [hindex]

/-! ## When operations succeed -/

theorem get_eq_ok_iff :
    heap.get id name = .ok value ↔
      ∃ owner slot binding, heap.locate id name = some (owner, slot) ∧
        (heap.frame owner).bindingAt? slot = some binding ∧ binding.value = value := by
  rw [get]
  cases heap.locate id name with
  | none => simp
  | some found =>
      obtain ⟨owner, slot⟩ := found
      cases hbinding : (heap.frame owner).bindingAt? slot with
      | none => simp [hbinding]
      | some binding =>
          simp only [hbinding, Except.ok.injEq]
          constructor
          · rintro rfl
            exact ⟨owner, slot, binding, rfl, hbinding, rfl⟩
          · rintro ⟨_, _, _, hfound, hbound, rfl⟩
            cases hfound
            rw [hbinding] at hbound
            cases hbound
            rfl

theorem declare_eq_ok_iff :
    heap.declare id name value declared = .ok after ↔
      (heap.frame id).binding? name = none ∧ declared.accepts value = true ∧
        after = heap.insert id name ⟨value, declared⟩ := by
  rw [declare, Frame.declareError?]
  cases (heap.frame id).binding? name with
  | some existing => simp
  | none =>
      cases haccepts : declared.accepts value with
      | false => simp
      | true => simp [eq_comm]

theorem assign_eq_ok_iff :
    heap.assign id name value = .ok after ↔
      ∃ owner slot, heap.locate id name = some (owner, slot) ∧
        (heap.frame owner).setError? slot value = none ∧
        after = heap.setValue owner slot value := by
  rw [assign]
  cases heap.locate id name with
  | none => simp
  | some found =>
      obtain ⟨owner, slot⟩ := found
      cases hset : (heap.frame owner).setError? slot value with
      | none =>
          simp only [hset]
          constructor
          · rintro ⟨⟩
            exact ⟨owner, slot, rfl, hset, rfl⟩
          · rintro ⟨_, _, hfound, _, rfl⟩
            cases hfound
            rfl
      | some error => simp [hset]

theorem setLocal_eq_ok_iff :
    heap.setLocal id name value = .ok after ↔
      ((heap.frame id).slot? name = none ∧ after = heap.define id name value) ∨
      ∃ slot, (heap.frame id).slot? name = some slot ∧
        (heap.frame id).setError? slot value = none ∧
        after = heap.setValue id slot value := by
  rw [setLocal]
  cases (heap.frame id).slot? name with
  | none => simp [eq_comm]
  | some slot =>
      cases hset : (heap.frame id).setError? slot value with
      | none => simp [hset, eq_comm]
      | some error => simp [hset]

theorem bindDefinition_eq_ok_iff :
    heap.bindDefinition id name value = .ok after ↔
      (∀ existing, heap.binding? id name = some existing →
        existing.declared = value.tag) ∧
        after = heap.define id name value := by
  rw [bindDefinition]
  cases heap.binding? id name with
  | none => simp [eq_comm]
  | some existing =>
      by_cases htag : existing.declared = value.tag
      · simp [htag, eq_comm]
      · simp [htag]

/-! ## When operations fail

An operation checks before it writes, so one that fails leaves the heap as it is. -/

variable {problem : BindingError}

theorem declare_eq_error (h : heap.declare id name value declared = .error problem after) :
    after = heap := by
  rw [declare] at h
  split at h
  · cases h
    rfl
  · cases h

theorem assign_eq_error (h : heap.assign id name value = .error problem after) :
    after = heap := by
  rw [assign] at h
  split at h
  · cases h
    rfl
  · split at h
    · cases h
      rfl
    · cases h

theorem setLocal_eq_error (h : heap.setLocal id name value = .error problem after) :
    after = heap := by
  rw [setLocal] at h
  split at h
  · cases h
  · split at h
    · cases h
      rfl
    · cases h

/-- A definition is refused under a name that is bound with another type than its kind. -/
theorem bindDefinition_eq_error_iff :
    heap.bindDefinition id name value = .error problem after ↔
      (∃ existing, heap.binding? id name = some existing ∧ existing.declared ≠ value.tag ∧
        problem = .redeclared name existing.declared value.tag) ∧ after = heap := by
  rw [bindDefinition]
  cases heap.binding? id name with
  | none => simp
  | some existing =>
      by_cases htag : existing.declared = value.tag
      · simp [htag]
      · simp [htag, eq_comm]

/-! ## The number of frames -/

theorem size_push_le (heap : Heap) (enclosing : Option FrameId) :
    heap.frames.size ≤ (heap.push enclosing).2.frames.size := by
  rw [push, Array.size_push]
  exact Nat.le_succ _

@[simp]
theorem size_insert {binding : Binding} :
    (heap.insert id name binding).frames.size = heap.frames.size :=
  Array.size_modify ..

@[simp]
theorem size_setValue {slot : Nat} :
    (heap.setValue id slot value).frames.size = heap.frames.size :=
  Array.size_modify ..

theorem size_declare (h : heap.declare id name value declared = .ok after) :
    after.frames.size = heap.frames.size := by
  obtain ⟨_, _, rfl⟩ := declare_eq_ok_iff.mp h
  exact size_insert

theorem size_assign (h : heap.assign id name value = .ok after) :
    after.frames.size = heap.frames.size := by
  obtain ⟨_, _, _, _, rfl⟩ := assign_eq_ok_iff.mp h
  exact size_setValue

theorem size_setLocal (h : heap.setLocal id name value = .ok after) :
    after.frames.size = heap.frames.size := by
  obtain ⟨_, rfl⟩ | ⟨_, _, _, rfl⟩ := setLocal_eq_ok_iff.mp h
  · exact size_insert
  · exact size_setValue

theorem size_bindDefinition (h : heap.bindDefinition id name value = .ok after) :
    after.frames.size = heap.frames.size := by
  obtain ⟨_, rfl⟩ := bindDefinition_eq_ok_iff.mp h
  exact size_insert

end Script.Heap
