/-
# Frames as chained maps

Frames that were built by enclosing one in another and by binding and assigning names are
maps from names to bindings, chained along their links. Looking a name up reads the nearest
frame that binds it, and assigning writes there, so that the name reads the new value from
wherever that frame is the nearest, and everything else reads as before. The names of a
frame stand in the order in which they were first bound.
-/

import Mathlib.Data.List.Basic
import Script.Proofs.Eval.Action
import Script.Proofs.Heap.Map
import Script.Proofs.Heap.Path

namespace Script.Heap

variable {heap after : Heap} {id owner : FrameId} {path : List FrameId} {name : String}
  {value : Value} {binding : Binding}

/-- The nearest frame on a path that binds a name. -/
def nearest? (heap : Heap) (path : List FrameId) (name : String) : Option FrameId :=
  path.find? fun id => ((heap.frame id).bound? name).isSome

/-- The indices of all frames are right, and the frames are numbered so that each is enclosed
by one with a smaller number. -/
structure Chained (heap : Heap) : Prop where
  indexed : ∀ id, (heap.frame id).Indexed
  older : ∀ id outer, (heap.frame id).enclosing = some outer → outer.index < id.index

/-! ## Paths -/

theorem findSome?_eq_bind_find? {α β : Type} (f : α → Option β) (items : List α) :
    items.findSome? f = (items.find? fun item => (f item).isSome).bind f := by
  induction items with
  | nil => rfl
  | cons item items ih =>
      rw [List.findSome?_cons, List.find?_cons]
      cases hitem : f item with
      | some found => exact hitem.symm
      | none => exact ih

theorem Chained.exists_path (h : heap.Chained) (id : FrameId) : ∃ path, heap.Path id path := by
  obtain ⟨index⟩ := id
  induction index using Nat.strongRecOn with
  | ind index ih =>
      cases henclosing : (heap.frame ⟨index⟩).enclosing with
      | none => exact ⟨_, .last henclosing⟩
      | some outer =>
          obtain ⟨path, hpath⟩ := ih outer.index (h.older _ _ henclosing)
          exact ⟨_, .link henclosing hpath⟩

/-- A path is not longer than the number of its first frame allows. -/
theorem Chained.length_le (h : heap.Chained) (hpath : heap.Path id path) :
    path.length ≤ id.index + 1 := by
  induction hpath with
  | last _ => exact Nat.succ_le_succ (Nat.zero_le _)
  | link henclosing _ ih =>
      exact Nat.succ_le_succ (Nat.le_trans ih (h.older _ _ henclosing))

/-- Looking a name up finds its place in the nearest frame that binds it. -/
theorem Chained.locate_eq (h : heap.Chained) (hpath : heap.Path id path) (name : String) :
    heap.locate id name = (heap.nearest? path name).bind (heap.slotIn name) := by
  have hsome (id : FrameId) :
      (heap.slotIn name id).isSome = ((heap.frame id).bound? name).isSome := by
    rw [slotIn, Option.isSome_map, (h.indexed id).isSome_slot?]
  rw [locate, hpath.locateWithin_eq (h.length_le hpath), findSome?_eq_bind_find?, nearest?]
  simp only [hsome]

theorem exists_bound_of_nearest (h : heap.nearest? path name = some owner) :
    ∃ binding, (heap.frame owner).bound? name = some binding := by
  have hfound := List.find?_some h
  exact Option.isSome_iff_exists.mp hfound

theorem nearest?_eq_none_iff :
    heap.nearest? path name = none ↔ ∀ owner ∈ path, name ∉ (heap.frame owner).names := by
  rw [nearest?, List.find?_eq_none]
  simp only [Frame.isSome_bound?]

/-- The place that a lookup finds holds what the frame has for the name. -/
theorem Chained.exists_place (h : heap.Chained) (hpath : heap.Path id path)
    (hnearest : heap.nearest? path name = some owner)
    (hbound : (heap.frame owner).bound? name = some binding) :
    ∃ slot, heap.locate id name = some (owner, slot) ∧
      (heap.frame owner).Binds slot name binding := by
  obtain ⟨slot, hbinds⟩ := Frame.exists_binds_of_bound? hbound
  have hslot := (h.indexed owner name slot).mpr ⟨binding, hbinds⟩
  have hlocate : heap.locate id name = some (owner, slot) := by
    rw [h.locate_eq hpath, hnearest, Option.bind_some, slotIn, hslot]
    rfl
  exact ⟨slot, hlocate, hbinds⟩

/-- The value of a name is the one in the nearest frame that binds it. -/
theorem Chained.get_eq_ok (h : heap.Chained) (hpath : heap.Path id path)
    (hnearest : heap.nearest? path name = some owner)
    (hbound : (heap.frame owner).bound? name = some binding) :
    heap.get id name = .ok binding.value := by
  obtain ⟨slot, hlocate, hbinds⟩ := h.exists_place hpath hnearest hbound
  exact get_eq_ok_iff.mpr
    ⟨owner, slot, binding, hlocate, Frame.bindingAt?_eq_some_iff.mpr ⟨name, hbinds⟩, rfl⟩

theorem Chained.get_eq_error (h : heap.Chained) (hpath : heap.Path id path)
    (hnearest : heap.nearest? path name = none) :
    heap.get id name = .error (.undefined name) := by
  rw [get, h.locate_eq hpath, hnearest]
  rfl

theorem Chained.get_eq_error_iff (h : heap.Chained) (hpath : heap.Path id path) :
    heap.get id name = .error (.undefined name) ↔
      ∀ owner ∈ path, name ∉ (heap.frame owner).names := by
  rw [← nearest?_eq_none_iff]
  constructor
  · intro herror
    cases hnearest : heap.nearest? path name with
    | none => rfl
    | some owner =>
        obtain ⟨binding, hbound⟩ := exists_bound_of_nearest hnearest
        cases herror.symm.trans (h.get_eq_ok hpath hnearest hbound)
  · exact h.get_eq_error hpath

/-! ## Writing one name in one frame -/

/-- A heap is another with a binding for a name in one frame. -/
structure Writes (heap after : Heap) (id : FrameId) (name : String) (binding : Binding) :
    Prop where
  frame : (heap.frame id).Sets (after.frame id) name binding
  others : ∀ other, other ≠ id → after.frame other = heap.frame other

theorem writes_insert (h : (heap.frame id).Indexed) (hid : id.index < heap.frames.size) :
    heap.Writes (heap.insert id name binding) id name binding := by
  constructor
  · rw [frame_insert hid]
    exact h.sets_insert
  · intro other hne
    rw [insert, frame_modify, if_neg fun hsame => hne hsame.1.symm]

theorem Chained.writes_insert (h : heap.Chained) (hid : id.index < heap.frames.size) :
    heap.Writes (heap.insert id name binding) id name binding :=
  Heap.writes_insert (h.indexed id) hid

theorem Chained.writes_setValue (h : heap.Chained) {slot : Nat}
    (hbinds : (heap.frame id).Binds slot name binding) :
    heap.Writes (heap.setValue id slot value) id name { binding with value } := by
  have hid : id.index < heap.frames.size :=
    (Array.getElem?_eq_some_iff.mp (getElem?_frames_of_binds hbinds)).1
  constructor
  · rw [setValue, frame_modify, if_pos ⟨rfl, hid⟩]
    exact (h.indexed id).sets_setValue hbinds
  · intro other hne
    rw [setValue, frame_modify, if_neg fun hsame => hne hsame.1.symm]

namespace Writes

theorem enclosing (h : heap.Writes after id name binding) (other : FrameId) :
    (after.frame other).enclosing = (heap.frame other).enclosing := by
  by_cases hsame : other = id
  · rw [hsame, h.frame.enclosing]
  · rw [h.others other hsame]

/-- What the frames have for names afterwards. -/
theorem bound? (h : heap.Writes after id name binding) (frame : FrameId) (other : String) :
    (after.frame frame).bound? other =
      if frame = id ∧ other = name then some binding else (heap.frame frame).bound? other := by
  split
  · next heq =>
    obtain ⟨rfl, rfl⟩ := heq
    exact h.frame.bound
  · next hne =>
    by_cases hsame : frame = id
    · subst hsame
      exact h.frame.others other fun heq => hne ⟨rfl, heq⟩
    · rw [h.others frame hsame]

theorem chained (hwrites : heap.Writes after id name binding) (h : heap.Chained) :
    after.Chained := by
  constructor
  · intro other
    by_cases hsame : other = id
    · exact hsame ▸ hwrites.frame.indexed
    · rw [hwrites.others other hsame]
      exact h.indexed other
  · intro other outer henclosing
    rw [hwrites.enclosing] at henclosing
    exact h.older other outer henclosing

theorem follows (h : heap.Writes after id name binding) {start : FrameId} {path : List FrameId}
    (hpath : heap.Path start path) : after.Path start path := by
  induction hpath with
  | last hlast => exact .last ((h.enclosing _).trans hlast)
  | link hlink _ ih => exact .link ((h.enclosing _).trans hlink) ih

/-- Where the frame binds the name already, each name keeps its nearest frame. -/
theorem nearest?_eq (h : heap.Writes after id name binding) {old : Binding}
    (hold : (heap.frame id).bound? name = some old) (path : List FrameId) (other : String) :
    after.nearest? path other = heap.nearest? path other := by
  rw [nearest?, nearest?]
  congr 1
  funext frame
  rw [h.bound?]
  split
  · next heq =>
    rw [heq.1, heq.2, hold]
    rfl
  · rfl

/-- Where the frame binds the name already, the name reads the new value from wherever that
frame is the nearest, and everything else reads as before. -/
theorem get_eq (hwrites : heap.Writes after id name binding) (h : heap.Chained)
    {old : Binding} (hold : (heap.frame id).bound? name = some old) {start : FrameId}
    {path : List FrameId} (hpath : heap.Path start path) (other : String) :
    after.get start other =
      if other = name ∧ heap.nearest? path other = some id then .ok binding.value
      else heap.get start other := by
  have hafter := hwrites.chained h
  have hpath' := hwrites.follows hpath
  have hnearest' := hwrites.nearest?_eq hold path other
  cases hnearest : heap.nearest? path other with
  | none =>
      rw [hnearest] at hnearest'
      rw [hafter.get_eq_error hpath' hnearest', h.get_eq_error hpath hnearest, if_neg nofun]
  | some owner =>
      rw [hnearest] at hnearest'
      obtain ⟨found, hfound⟩ := exists_bound_of_nearest hnearest'
      rw [hafter.get_eq_ok hpath' hnearest' hfound]
      rw [hwrites.bound?] at hfound
      split at hfound
      · next heq =>
        cases hfound
        rw [if_pos ⟨heq.2, congrArg some heq.1⟩]
      · next hne =>
        rw [h.get_eq_ok hpath hnearest hfound,
          if_neg fun heq => hne ⟨Option.some.inj heq.2, heq.1⟩]

end Writes

/-! ## Operations -/

/-- What an assignment does to the frame in which it finds the name. -/
structure Assigned (heap after : Heap) (path : List FrameId) (name : String) (value : Value)
    (owner : FrameId) (old : Binding) : Prop where
  nearest : heap.nearest? path name = some owner
  bound : (heap.frame owner).bound? name = some old
  accepts : old.declared.accepts value = true
  /-- The declared type stays. -/
  writes : heap.Writes after owner name { old with value }
  /-- So does the position. -/
  names : (after.frame owner).names = (heap.frame owner).names
  lookups : ∀ {start path} other, heap.Path start path →
    after.get start other =
      if other = name ∧ heap.nearest? path other = some owner then .ok value
      else heap.get start other

theorem Chained.exists_assigned (h : heap.Chained) (hpath : heap.Path id path)
    (hassign : heap.assign id name value = .ok after) :
    ∃ owner old, heap.Assigned after path name value owner old := by
  obtain ⟨owner, slot, hlocate, hset, rfl⟩ := assign_eq_ok_iff.mp hassign
  have hlocated := (h.locate_eq hpath name).symm.trans hlocate
  obtain ⟨found, hnearest, hslot⟩ := Option.bind_eq_some_iff.mp hlocated
  obtain ⟨_, hslot, heq⟩ := Option.map_eq_some_iff.mp hslot
  cases heq
  obtain ⟨old, hbinds⟩ := (h.indexed owner name slot).mp hslot
  have hbound := (h.indexed owner).bound?_eq_some_iff.mpr ⟨slot, hbinds⟩
  have hmem : name ∈ (heap.frame owner).names :=
    Frame.isSome_bound?.mp (Option.isSome_iff_exists.mpr ⟨old, hbound⟩)
  have hwrites : heap.Writes (heap.setValue owner slot value) owner name { old with value } :=
    h.writes_setValue hbinds
  exact ⟨owner, old, {
    nearest := hnearest
    bound := hbound
    accepts := Frame.setError?_eq_none_iff.mp hset
      (Frame.bindingAt?_eq_some_iff.mpr ⟨name, hbinds⟩)
    writes := hwrites
    names := hwrites.frame.names.trans (if_pos hmem)
    lookups := fun other hpath => hwrites.get_eq h hbound hpath other }⟩

theorem Chained.writes_declare (h : heap.Chained) (hid : id.index < heap.frames.size)
    {declared : TypeTag} (hdeclare : heap.declare id name value declared = .ok after) :
    heap.Writes after id name ⟨value, declared⟩ := by
  obtain ⟨-, -, rfl⟩ := declare_eq_ok_iff.mp hdeclare
  exact h.writes_insert hid

theorem Chained.writes_define (h : heap.Chained) (hid : id.index < heap.frames.size)
    (name : String) (value : Value) :
    heap.Writes (heap.define id name value) id name ⟨value, value.tag⟩ :=
  h.writes_insert hid

/-- The type under which a frame binds a name when it is given a value there: its old one, or
the kind of the value. -/
def localType (heap : Heap) (id : FrameId) (name : String) (value : Value) : TypeTag :=
  ((heap.frame id).bound? name).elim value.tag (·.declared)

theorem Chained.writes_setLocal (h : heap.Chained) (hid : id.index < heap.frames.size)
    (hset : heap.setLocal id name value = .ok after) :
    heap.Writes after id name ⟨value, heap.localType id name value⟩ := by
  obtain ⟨hnone, rfl⟩ | ⟨slot, hslot, -, rfl⟩ := setLocal_eq_ok_iff.mp hset
  · have hfree := Frame.bound?_eq_none_iff.mpr ((h.indexed id).slot?_eq_none_iff.mp hnone)
    rw [localType, hfree]
    exact h.writes_insert hid
  · obtain ⟨old, hbinds⟩ := (h.indexed id name slot).mp hslot
    rw [localType, (h.indexed id).bound?_eq_some_iff.mpr ⟨slot, hbinds⟩]
    exact h.writes_setValue hbinds

/-- Put a frame inside another one. -/
def enclose (heap : Heap) (id outer : FrameId) : Heap :=
  ⟨heap.frames.modify id.index fun frame => { frame with enclosing := some outer }⟩

/-! ## Built heaps -/

/-- The heaps that operations build, each with the names that were bound in frames, the last
one last. A frame is numbered after the one that it is put into; those that are not in any
other can be made first. Operations that fail need no place, since they change nothing. -/
inductive Built : List (FrameId × String) → Heap → Prop
  | empty : Built [] .empty
  | push {log : List (FrameId × String)} {heap : Heap} {enclosing : Option FrameId} :
      Built log heap → (∀ outer, enclosing = some outer → outer.index < heap.frames.size) →
      Built log (heap.push enclosing).2
  | enclose {log : List (FrameId × String)} {heap : Heap} {id outer : FrameId} :
      Built log heap → outer.index < id.index → Built log (heap.enclose id outer)
  | declare {log : List (FrameId × String)} {heap after : Heap} {id : FrameId} {name : String}
      {value : Value} {declared : TypeTag} :
      Built log heap → id.index < heap.frames.size →
      heap.declare id name value declared = .ok after → Built (log ++ [(id, name)]) after
  | define {log : List (FrameId × String)} {heap : Heap} {id : FrameId} {name : String}
      {value : Value} :
      Built log heap → id.index < heap.frames.size →
      Built (log ++ [(id, name)]) (heap.define id name value)
  | assign {log : List (FrameId × String)} {heap after : Heap} {id : FrameId} {name : String}
      {value : Value} :
      Built log heap → heap.assign id name value = .ok after → Built log after
  | setLocal {log : List (FrameId × String)} {heap after : Heap} {id : FrameId} {name : String}
      {value : Value} :
      Built log heap → id.index < heap.frames.size →
      heap.setLocal id name value = .ok after → Built (log ++ [(id, name)]) after

/-- The names that a log has for a frame. -/
def logged (log : List (FrameId × String)) (id : FrameId) : List String :=
  (log.filter (·.1 = id)).map Prod.snd

/-- The names of a frame are those that were bound in it, in the order in which each was
first bound. -/
def Records (log : List (FrameId × String)) (heap : Heap) : Prop :=
  ∀ id, (heap.frame id).names = (logged log id).eraseDups

theorem logged_append (log : List (FrameId × String)) (id other : FrameId) (name : String) :
    logged (log ++ [(id, name)]) other =
      if other = id then logged log other ++ [name] else logged log other := by
  rw [logged, List.filter_append, List.map_append]
  split
  · next heq => simp [heq, logged]
  · next hne => simp [Ne.symm hne, logged]

theorem eraseDups_append_singleton (names : List String) (name : String) :
    (names ++ [name]).eraseDups =
      if name ∈ names.eraseDups then names.eraseDups else names.eraseDups ++ [name] := by
  have hsingle : [name].eraseDups = [name] := List.eraseDups_cons
  rw [List.eraseDups_append]
  by_cases hmem : name ∈ names <;> simp [List.removeAll, hmem, hsingle]

theorem Writes.records {log : List (FrameId × String)} (h : heap.Writes after id name binding)
    (hrecords : heap.Records log) : after.Records (log ++ [(id, name)]) := by
  intro other
  rw [logged_append]
  split
  · next heq =>
    rw [heq, h.frame.names, eraseDups_append_singleton, ← hrecords id]
  · next hne =>
    rw [h.others other hne]
    exact hrecords other

theorem Assigned.records {log : List (FrameId × String)} {old : Binding}
    (h : heap.Assigned after path name value owner old) (hrecords : heap.Records log) :
    after.Records log := by
  intro other
  by_cases hsame : other = owner
  · rw [hsame, h.names]
    exact hrecords owner
  · rw [h.writes.others other hsame]
    exact hrecords other

theorem Chained.push (h : heap.Chained) {enclosing : Option FrameId}
    (hold : ∀ outer, enclosing = some outer → outer.index < heap.frames.size) :
    (heap.push enclosing).2.Chained := by
  constructor
  · intro other
    rw [frame_push]
    split
    · exact Frame.indexed_empty
    · exact h.indexed other
  · intro other outer henclosing
    rw [frame_push] at henclosing
    split at henclosing
    · next hindex =>
      rw [hindex]
      exact hold outer henclosing
    · exact h.older other outer henclosing

theorem Records.push {log : List (FrameId × String)} (h : heap.Records log)
    (enclosing : Option FrameId) : (heap.push enclosing).2.Records log := by
  intro other
  rw [frame_push, ← h other]
  split
  · next hindex =>
    -- a frame that does not exist yet is as empty as a new one
    have hnone : heap.frames[other.index]? = none :=
      Array.getElem?_eq_none (Nat.le_of_eq hindex.symm)
    rw [Heap.frame, hnone]
    rfl
  · rfl

theorem Chained.enclose (h : heap.Chained) {outer : FrameId} (hold : outer.index < id.index) :
    (heap.enclose id outer).Chained := by
  constructor
  · intro other
    rw [Heap.enclose, frame_modify]
    split
    · exact h.indexed id
    · exact h.indexed other
  · intro other further henclosing
    rw [Heap.enclose, frame_modify] at henclosing
    split at henclosing
    · next heq =>
      cases henclosing
      exact heq.1 ▸ hold
    · exact h.older other further henclosing

theorem Records.enclose {log : List (FrameId × String)} (h : heap.Records log)
    (id outer : FrameId) : (heap.enclose id outer).Records log := by
  intro other
  rw [Heap.enclose, frame_modify, ← h other]
  split
  · next heq =>
    rw [← heq.1]
    rfl
  · rfl

/-- Built heaps are chained maps, and their frames keep the order of definition. -/
theorem Built.chained_and_records {log : List (FrameId × String)} (h : Built log heap) :
    heap.Chained ∧ heap.Records log := by
  induction h with
  | empty => exact ⟨⟨fun _ => Frame.indexed_empty, nofun⟩, fun _ => rfl⟩
  | push _ hold ih => exact ⟨ih.1.push hold, ih.2.push _⟩
  | enclose _ hold ih => exact ⟨ih.1.enclose hold, ih.2.enclose _ _⟩
  | declare _ hid hdeclare ih =>
      have hwrites := ih.1.writes_declare hid hdeclare
      exact ⟨hwrites.chained ih.1, hwrites.records ih.2⟩
  | @define _ _ _ name value _ hid ih =>
      have hwrites := ih.1.writes_define hid name value
      exact ⟨hwrites.chained ih.1, hwrites.records ih.2⟩
  | assign _ hassign ih =>
      obtain ⟨path, hpath⟩ := ih.1.exists_path _
      obtain ⟨owner, old, hassigned⟩ := ih.1.exists_assigned hpath hassign
      exact ⟨hassigned.writes.chained ih.1, hassigned.records ih.2⟩
  | setLocal _ hid hset ih =>
      have hwrites := ih.1.writes_setLocal hid hset
      exact ⟨hwrites.chained ih.1, hwrites.records ih.2⟩

/-- What holds of frames that are chained maps with an order. -/
structure ActsAsMaps (log : List (FrameId × String)) (heap : Heap) : Prop where
  /-- Each frame has one path outwards. -/
  path : ∀ id, ∃ path, heap.Path id path ∧ ∀ {other}, heap.Path id other → other = path
  /-- A lookup reads the nearest frame on the path that binds the name. -/
  found : ∀ {id path name owner}, heap.Path id path → heap.nearest? path name = some owner →
    ∃ binding, (heap.frame owner).bound? name = some binding ∧
      heap.get id name = .ok binding.value
  /-- It fails if there is none. -/
  undefined : ∀ {id path name}, heap.Path id path →
    (heap.get id name = .error (.undefined name) ↔
      ∀ owner ∈ path, name ∉ (heap.frame owner).names)
  assign : ∀ {id path name value after}, heap.Path id path →
    heap.assign id name value = .ok after →
    ∃ owner old, heap.Assigned after path name value owner old
  declare : ∀ {id name value declared after}, id.index < heap.frames.size →
    heap.declare id name value declared = .ok after →
    heap.Writes after id name ⟨value, declared⟩
  define : ∀ {id name value}, id.index < heap.frames.size →
    heap.Writes (heap.define id name value) id name ⟨value, value.tag⟩
  setLocal : ∀ {id name value after}, id.index < heap.frames.size →
    heap.setLocal id name value = .ok after →
    heap.Writes after id name ⟨value, heap.localType id name value⟩
  /-- An operation that fails leaves the frames as they are. -/
  refused : ∀ {id name value declared problem after},
    heap.declare id name value declared = .error problem after ∨
      heap.assign id name value = .error problem after ∨
      heap.setLocal id name value = .error problem after → after = heap
  /-- So does every action. -/
  failed : ∀ {α : Type} {action : Action Span α} {state after : State Span} {error},
    state.heap = heap → action.run state = (.error error, after) → after.heap = heap
  /-- Names are listed once, in the order in which each was first bound. -/
  nodup : ∀ id, (heap.frame id).names.Nodup
  names : ∀ id, (heap.frame id).names = (logged log id).eraseDups
  size : ∀ id, (heap.frame id).size = (heap.frame id).names.length
  /-- The index tells the places of the names in that order. -/
  index : ∀ id name slot,
    (heap.frame id).slot? name = some slot ↔ (heap.frame id).names[slot]? = some name

/-- Frames that operations build behave as chained maps that keep the order of insertion. -/
theorem Built.actsAsMaps {log : List (FrameId × String)} (h : Built log heap) :
    heap.ActsAsMaps log := by
  obtain ⟨hchained, hrecords⟩ := h.chained_and_records
  constructor
  case path =>
    intro id
    obtain ⟨path, hpath⟩ := hchained.exists_path id
    exact ⟨path, hpath, fun hother => hother.unique hpath⟩
  case found =>
    intro id path name owner hpath hnearest
    obtain ⟨binding, hbound⟩ := exists_bound_of_nearest hnearest
    exact ⟨binding, hbound, hchained.get_eq_ok hpath hnearest hbound⟩
  case undefined => exact hchained.get_eq_error_iff
  case assign => exact hchained.exists_assigned
  case declare => exact fun hid hdeclare => hchained.writes_declare hid hdeclare
  case define => exact fun hid => hchained.writes_define hid _ _
  case setLocal => exact hchained.writes_setLocal
  case refused =>
    rintro id name value declared problem after (hrefused | hrefused | hrefused)
    · exact declare_eq_error hrefused
    · exact assign_eq_error hrefused
    · exact setLocal_eq_error hrefused
  case failed =>
    intro α action state after error hheap hrun
    rw [(Action.run_eq_error hrun).1]
    exact hheap
  case nodup => exact fun id => (hchained.indexed id).names_nodup
  case names => exact hrecords
  case size => exact fun id => Frame.length_names.symm
  case index => exact fun id name slot => (hchained.indexed id).slot?_eq_some_iff

/-- Two names, of which the first is bound again, and a frame inside that shadows the
second. -/
def shadowing : Heap :=
  (((((empty.push none).2.define ⟨0⟩ "b" .nil).define ⟨0⟩ "a" .nil).define ⟨0⟩ "b"
    (.boolean true)).push (some ⟨0⟩)).2.define ⟨1⟩ "a" .nil

theorem Built.actsAsMaps_of_shadowing :
    shadowing.ActsAsMaps [(⟨0⟩, "b"), (⟨0⟩, "a"), (⟨0⟩, "b"), (⟨1⟩, "a")] ∧
      (shadowing.frame ⟨0⟩).names = ["b", "a"] ∧ (shadowing.frame ⟨1⟩).names = ["a"] ∧
      ∃ after, shadowing.assign ⟨1⟩ "b" (.boolean false) = .ok after ∧
        after.get ⟨0⟩ "b" = .ok (.boolean false) := by
  have hglobal : ∀ outer : FrameId, none = some outer → outer.index < 0 := nofun
  have hinner : ∀ outer, some (FrameId.mk 0) = some outer → outer.index < 1 := by
    rintro _ ⟨⟩
    decide
  have hbuilt : Built [(⟨0⟩, "b"), (⟨0⟩, "a"), (⟨0⟩, "b"), (⟨1⟩, "a")] shadowing :=
    .define (.push (.define (.define (.define (.push .empty hglobal) (by decide)) (by decide))
      (by decide)) hinner) (by decide)
  exact ⟨hbuilt.actsAsMaps, rfl, rfl, _, rfl, rfl⟩

end Script.Heap
