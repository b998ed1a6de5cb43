/-
# Private frames

A frame is private if no binding holds a namespace of it. Code that is not given such a
namespace never gets one, so it reaches the frame only along links outwards, by which it
can give other values to names but not add any. A frame that is made is private, until it
is bound as a namespace.
-/

import Script.Proofs.Eval.Reach
import Script.Proofs.Eval.WellFormed

namespace Script

variable {σ : Type}

/-- A value is no namespace of a frame and has none in it. -/
def Value.Avoids (value : Value) (id : FrameId) : Prop :=
  value.RefersTo (fun _ => True) (· ≠ id)

namespace Store

/-- No binding holds a namespace of a frame. -/
def Private (store : Store σ) (id : FrameId) : Prop :=
  ∀ (other : FrameId) (slot : Nat) (name : String) (binding : Binding),
    (store.heap.frame other).Binds slot name binding → binding.value.Avoids id

variable {store : Store σ} {id other : FrameId} {name : String} {value : Value}

/-- Whatever refers only to what exists avoids a frame that does not exist yet. -/
theorem Refers.avoids (h : store.Refers value) (hnew : ¬ store.HasFrame id) :
    value.Avoids id := by
  refine Value.RefersTo.imp (fun _ => trivial) ?_ h
  rintro frame hframe rfl
  exact hnew hframe

namespace Private

theorem insert {binding : Binding} (h : store.Private id) (hvalue : binding.value.Avoids id) :
    Store.Private { store with heap := store.heap.insert other name binding } id := by
  intro place slot bound held hbinds
  change ((Heap.mk (store.heap.frames.modify _ _)).frame place).Binds slot bound held at hbinds
  rw [Heap.frame_modify] at hbinds
  split at hbinds
  · obtain ⟨_, rfl⟩ | hold := Frame.binds_of_binds_insert hbinds
    · exact hvalue
    · exact h _ _ _ _ hold
  · exact h _ _ _ _ hbinds

theorem setValue {slot : Nat} (h : store.Private id) (hvalue : value.Avoids id) :
    Store.Private { store with heap := store.heap.setValue other slot value } id := by
  intro place slot' bound held hbinds
  change ((Heap.mk (store.heap.frames.modify _ _)).frame place).Binds slot' bound held at hbinds
  rw [Heap.frame_modify] at hbinds
  split at hbinds
  · obtain ⟨old, hold, rfl⟩ := Frame.binds_setValue_iff.mp hbinds
    split
    · exact hvalue
    · exact h _ _ _ _ hold
  · exact h _ _ _ _ hbinds

theorem pushFrame (h : store.Private id) : (store.pushFrame other).Private id := by
  intro place slot bound held hbinds
  rw [Store.pushFrame, Heap.frame_push] at hbinds
  split at hbinds
  · exact (Frame.not_binds_empty hbinds).elim
  · exact h _ _ _ _ hbinds

end Private

end Store

open Store

/-- The discipline of a private frame: it exists, and code is given no namespace of it. -/
def Discipline.keepsPrivate (id : FrameId) : Discipline σ where
  rules := .free
  sound store := store.HasFrame id ∧ store.Private id
  scope _ _ := True
  space _ other := other ≠ id
  function _ _ := True
  scope_mono _ _ := trivial
  space_mono _ h := h
  function_mono _ _ := trivial
  scope_of_function _ _ _ := trivial
  lookup h _ hget := by
    obtain ⟨_, _, _, _, hbinding, rfl⟩ := Heap.get_eq_ok_iff.mp hget
    obtain ⟨_, hbinds⟩ := Frame.bindingAt?_eq_some_iff.mp hbinding
    exact h.2 _ _ _ _ hbinds
  member h _ hbinding := by
    obtain ⟨_, _, hbinds⟩ := Frame.exists_binds_of_binding? hbinding
    exact h.2 _ _ _ _ hbinds
  enter h _ := by
    refine ⟨⟨h.1.mono (.pushFrame _ _), h.2.pushFrame⟩, trivial, ?_⟩
    -- the frame that is made is behind all that exist
    rintro rfl
    exact Nat.lt_irrefl _ h.1
  declare h _ hvalue hdeclare := by
    obtain ⟨_, _, rfl⟩ := Heap.declare_eq_ok_iff.mp hdeclare
    exact ⟨h.1.mono (.of_size_eq Heap.size_insert), h.2.insert hvalue⟩
  assign h _ hvalue hassign := by
    obtain ⟨_, _, _, _, rfl⟩ := Heap.assign_eq_ok_iff.mp hassign
    exact ⟨h.1.mono (.of_size_eq Heap.size_setValue), h.2.setValue hvalue⟩
  setMember h _ hvalue hmember := by
    obtain ⟨_, rfl⟩ | ⟨_, _, _, rfl⟩ := Heap.setLocal_eq_ok_iff.mp hmember
    · exact ⟨h.1.mono (.of_size_eq Heap.size_insert), h.2.insert hvalue⟩
    · exact ⟨h.1.mono (.of_size_eq Heap.size_setValue), h.2.setValue hvalue⟩
  bindDefinition h _ hvalue hbind := by
    obtain ⟨_, rfl⟩ := Heap.bindDefinition_eq_ok_iff.mp hbind
    exact ⟨h.1.mono (.of_size_eq Heap.size_insert), h.2.insert hvalue⟩
  pushFunction h _ := ⟨h, trivial⟩

theorem kept_keepsPrivate {store : Store σ} {id : FrameId} (hid : store.HasFrame id)
    (h : store.Private id) : (Discipline.keepsPrivate id).Kept store :=
  ⟨⟨hid, h⟩, fun _ => Tree.obeys_free .function _⟩

/-- A frame that was just made is private. -/
theorem kept_keepsPrivate_pushFrame {store : Store σ} {id : FrameId} (h : store.WellFormed) :
    (Discipline.keepsPrivate (store.heap.push (some id)).1).Kept (store.pushFrame id) := by
  refine kept_keepsPrivate (hasFrame_pushFrame store id) (Private.pushFrame ?_)
  intro other slot name binding hbinds
  exact (h.refers hbinds).avoids (Nat.lt_irrefl _)

end Script
