/-
# The paths of lookups

Where every frame is enclosed by an older one, the path from a frame outwards gets to
the first frame, and no frame is on it twice. Looking a name up is a search along this
path: the number of links that a lookup may follow is never the reason why it ends.
-/

import Script.Proofs.Heap.Basic

namespace Script

/-- The frame at a place is enclosed by an older one, if it is not the first. -/
def Frame.Linked (frame : Frame) (index : Nat) : Prop :=
  match frame.enclosing with
  | none => index = 0
  | some outer => outer.index < index

namespace Heap

variable {heap : Heap} {id : FrameId} {path : List FrameId}

/-- The frames from one outwards, along the links. -/
inductive Path (heap : Heap) : FrameId → List FrameId → Prop
  | last {id : FrameId} : (heap.frame id).enclosing = none → Path heap id [id]
  | link {id outer : FrameId} {path : List FrameId} :
      (heap.frame id).enclosing = some outer → Path heap outer path → Path heap id (id :: path)

/-- A name's binding in a frame, with the frame. -/
def slotIn (heap : Heap) (name : String) (id : FrameId) : Option (FrameId × Nat) :=
  ((heap.frame id).slot? name).map (id, ·)

/-- Following enough links is a search along the path. -/
theorem Path.locateWithin_eq {name : String} (h : heap.Path id path) :
    ∀ {links : Nat}, path.length ≤ links →
      heap.locateWithin name links id = path.findSome? (heap.slotIn name) := by
  induction h with
  | @last id hlast =>
      intro links hlinks
      obtain ⟨links, rfl⟩ := Nat.exists_eq_add_of_le' hlinks
      change heap.locateWithin name (links + 1) id = _
      rw [locateWithin]
      cases hslot : (heap.frame id).slot? name with
      | some slot => simp [slotIn, hslot]
      | none => simp [slotIn, hslot, hlast]
  | @link id outer path hlink _ ih =>
      intro links hlinks
      obtain ⟨links, rfl⟩ := Nat.exists_eq_add_of_le' hlinks
      change heap.locateWithin name (links + path.length + 1) id = _
      rw [locateWithin]
      cases hslot : (heap.frame id).slot? name with
      | some slot => simp [slotIn, hslot]
      | none => simp [slotIn, hslot, hlink, ih]

/-- A frame has only one path. -/
theorem Path.unique {other : List FrameId} (h : heap.Path id path) (hother : heap.Path id other) :
    path = other := by
  induction h generalizing other with
  | last hlast =>
      cases hother with
      | last _ => rfl
      | link hlink _ =>
          rw [hlast] at hlink
          cases hlink
  | link hlink _ ih =>
      cases hother with
      | last hlast =>
          rw [hlink] at hlast
          cases hlast
      | link hlink' hother =>
          rw [hlink] at hlink'
          cases hlink'
          rw [ih hother]

/-- A lookup finds a name in a frame that belongs to every set of frames which the links
do not leave. -/
theorem mem_of_locateWithin {inside : FrameId → Prop} {name : String} {owner : FrameId}
    {slot : Nat}
    (hlinks : ∀ {id outer}, inside id → (heap.frame id).enclosing = some outer → inside outer) :
    ∀ {links : Nat} {id : FrameId}, inside id →
      heap.locateWithin name links id = some (owner, slot) → inside owner := by
  intro links
  induction links with
  | zero =>
      intro id _ h
      cases h
  | succ links ih =>
      intro id hid h
      rw [locateWithin] at h
      split at h
      · cases h
        exact hid
      · split at h
        · next houter => exact ih (hlinks hid houter) h
        · cases h

/-- What holds of the path of a lookup: the links lead along it and nowhere else, it ends
at the first frame, no frame is on it twice, and looking a name up from its beginning is a
search along it. -/
structure LookupPath (heap : Heap) (id : FrameId) (path : List FrameId) : Prop where
  follows : heap.Path id path
  unique : ∀ {other}, heap.Path id other → other = path
  ends : path.getLast? = some ⟨0⟩
  nodup : path.Nodup
  search : ∀ name, heap.locate id name = path.findSome? (heap.slotIn name)

/-- Every frame of the heap is enclosed by an older one, if it is not the first. -/
def Linked (heap : Heap) : Prop :=
  ∀ (index : Nat) (frame : Frame), heap.frames[index]? = some frame → frame.Linked index

/-- Where frames are enclosed by older ones, a path gets to the first frame by way of ever
older ones, so it is not longer than its beginning's place tells. -/
theorem Linked.exists_path (hlinked : heap.Linked) (hid : id.index < heap.frames.size) :
    ∃ path, heap.Path id path ∧ path.getLast? = some ⟨0⟩ ∧
      path.Pairwise (fun inner outer => outer.index < inner.index) ∧
      (∀ outer ∈ path, outer.index ≤ id.index) ∧ path.length ≤ id.index + 1 := by
  obtain ⟨index⟩ := id
  induction index using Nat.strongRecOn with
  | ind index ih =>
      have hframe : heap.frames[index]? = some heap.frames[index] :=
        Array.getElem?_eq_getElem hid
      have heq : heap.frame ⟨index⟩ = heap.frames[index] := frame_eq_of_getElem? hframe
      have hlink := hlinked index _ hframe
      rw [← heq, Frame.Linked] at hlink
      split at hlink
      · next hnone =>
        subst hlink
        exact ⟨[⟨0⟩], .last hnone, rfl, List.pairwise_singleton _ _, by simp, by simp⟩
      · next outer houter =>
        obtain ⟨path, hpath, hends, hdescends, hbound, hlength⟩ :=
          ih outer.index hlink (Nat.lt_trans hlink hid)
        refine ⟨⟨index⟩ :: path, .link houter hpath, ?_, ?_, ?_, ?_⟩
        · rw [List.getLast?_cons, hends]
          rfl
        · rw [List.pairwise_cons]
          exact ⟨fun other hother => Nat.lt_of_le_of_lt (hbound other hother) hlink, hdescends⟩
        · rw [List.forall_mem_cons]
          exact ⟨Nat.le_refl _, fun other hother =>
            Nat.le_trans (hbound other hother) (Nat.le_of_lt hlink)⟩
        · exact Nat.succ_le_succ (Nat.le_trans hlength hlink)

/-- Where frames are enclosed by older ones, lookups search along paths. -/
theorem Linked.exists_lookupPath (hlinked : heap.Linked) (hid : id.index < heap.frames.size) :
    ∃ path, heap.LookupPath id path := by
  obtain ⟨path, hpath, hends, hdescends, _, hlength⟩ := hlinked.exists_path hid
  refine ⟨path, hpath, fun hother => hother.unique hpath, hends, hdescends.imp ?_,
    fun name => hpath.locateWithin_eq hlength⟩
  intro inner outer hlt heq
  rw [heq] at hlt
  exact Nat.lt_irrefl _ hlt

end Heap

end Script
