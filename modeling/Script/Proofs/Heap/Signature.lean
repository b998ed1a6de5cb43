/-
# Signatures of frames

The signature of a frame lists its names with their declared types, in the order in which
they were bound. Setting a value keeps it. Binding a new name adds the name at the end,
and binding a name again keeps the signature if the type is the same, as every operation
makes sure.
-/

import Script.Proofs.Heap.Basic

namespace Script

namespace Frame

variable {frame : Frame} {slot : Nat} {name : String} {binding old : Binding} {value : Value}

/-- The names of a frame with their declared types, in the order of definition. -/
def signature (frame : Frame) : List (String × TypeTag) :=
  frame.bindings.map fun (name, binding) => (name, binding.declared)

theorem getElem?_signature :
    frame.signature[slot]? = (frame.slots[slot]?).map fun (name, binding) =>
      (name, binding.declared) := by
  rw [signature, bindings, List.getElem?_map, Array.getElem?_toList]

theorem signature_setValue : (frame.setValue slot value).signature = frame.signature := by
  apply List.ext_getElem?
  intro place
  rw [getElem?_signature, getElem?_signature, setValue, Array.getElem?_modify]
  split
  · rw [Option.map_map]
    rfl
  · rfl

theorem signature_insert_of_slot?_eq_none (h : frame.slot? name = none) :
    (frame.insert name binding).signature = frame.signature ++ [(name, binding.declared)] := by
  rw [insert, h, signature, bindings, Array.toList_push, List.map_append]
  rfl

/-- A name that is bound again under the same type keeps its place in the signature. -/
theorem signature_insert_of_binds (h : frame.slot? name = some slot)
    (hbinds : frame.Binds slot name old) (hdeclared : old.declared = binding.declared) :
    (frame.insert name binding).signature = frame.signature := by
  apply List.ext_getElem?
  intro place
  simp only [getElem?_signature, insert, h, Array.getElem?_setIfInBounds]
  split
  · next heq =>
    subst heq
    have hlt : slot < frame.slots.size := (Array.getElem?_eq_some_iff.mp hbinds).1
    have hslot : frame.slots[slot]? = some (name, old) := hbinds
    rw [if_pos hlt, hslot, Option.map_some, Option.map_some, hdeclared]
  · rfl

/-- Binding a name adds at most one name at the end, if a name that is bound already keeps
its type. -/
theorem prefix_signature_insert (hindexed : frame.Indexed)
    (h : ∀ old, frame.binding? name = some old → old.declared = binding.declared) :
    frame.signature <+: (frame.insert name binding).signature := by
  cases hslot : frame.slot? name with
  | none =>
      rw [signature_insert_of_slot?_eq_none hslot]
      exact List.prefix_append _ _
  | some slot =>
      obtain ⟨old, hbinds⟩ := (hindexed name slot).mp hslot
      have hbinding : frame.binding? name = some old := by
        rw [binding?, hslot]
        exact bindingAt?_eq_some_iff.mpr ⟨name, hbinds⟩
      exact signature_insert_of_binds hslot hbinds (h old hbinding) ▸ List.prefix_rfl

end Frame

namespace Heap

variable {heap after : Heap} {id other : FrameId} {name : String} {value : Value}

/-- The signature of the frame at a place. -/
def signature (heap : Heap) (id : FrameId) : List (String × TypeTag) := (heap.frame id).signature

theorem signature_push {enclosing : Option FrameId} :
    (heap.push enclosing).2.signature id = heap.signature id := by
  rw [signature, frame_push]
  split
  · next hnew =>
    have hframe : heap.frame id = .empty none := by
      rw [frame, Array.getElem?_eq_none (Nat.le_of_eq hnew.symm), Option.getD_none]
    rw [signature, hframe]
    rfl
  · rfl

theorem signature_setValue {slot : Nat} :
    (heap.setValue id slot value).signature other = heap.signature other := by
  rw [signature, setValue, frame_modify]
  split
  · next heq =>
    obtain ⟨rfl, _⟩ := heq
    exact Frame.signature_setValue
  · rfl

theorem signature_insert_of_ne {binding : Binding} (h : id ≠ other) :
    (heap.insert id name binding).signature other = heap.signature other := by
  rw [signature, insert, frame_modify, if_neg fun hsame => h hsame.1]
  rfl

theorem prefix_signature_insert {binding : Binding} (hindexed : (heap.frame id).Indexed)
    (h : ∀ old, heap.binding? id name = some old → old.declared = binding.declared) :
    heap.signature other <+: (heap.insert id name binding).signature other := by
  by_cases hsame : id = other
  · subst hsame
    rw [signature, signature, insert, frame_modify]
    split
    · exact Frame.prefix_signature_insert hindexed h
    · exact List.prefix_rfl
  · exact signature_insert_of_ne hsame ▸ List.prefix_rfl

end Heap

end Script
