/-
# Frames as maps that keep an order

A frame is a row of bindings with an index into it. Seen from outside it is a map from names
to bindings that also keeps the order in which the names were first bound: binding a name
and setting a value change what the map has for that name and nothing else, and only a new
name changes the order, where it comes last.
-/

import Script.Proofs.Heap.Frame

namespace Script.Frame

variable {frame : Frame} {slot place : Nat} {name other : String} {binding bound : Binding}
  {value : Value}

/-- The names that a frame binds, in the order of definition. -/
def names (frame : Frame) : List String := frame.bindings.map Prod.fst

/-- What a frame has for a name, without its index. -/
def bound? (frame : Frame) (name : String) : Option Binding := frame.bindings.lookup name

theorem length_names : frame.names.length = frame.size := by
  rw [names, List.length_map, bindings, Array.length_toList]
  rfl

theorem getElem?_names :
    frame.names[slot]? = some name ↔ ∃ binding, frame.Binds slot name binding := by
  rw [names, List.getElem?_map, bindings, Array.getElem?_toList]
  simp [Binds]

theorem isSome_bound? : (frame.bound? name).isSome = true ↔ name ∈ frame.names := by
  rw [bound?, List.lookup_isSome_iff, names, List.mem_map]
  simp only [beq_iff_eq, eq_comm (a := name)]

theorem exists_binds_of_bound? (h : frame.bound? name = some binding) :
    ∃ slot, frame.Binds slot name binding := by
  obtain ⟨before, behind, heq, -⟩ := List.lookup_eq_some_iff.mp h
  refine ⟨before.length, ?_⟩
  rw [Binds, ← Array.getElem?_toList, ← bindings, heq]
  simp

/-- The index and the row of bindings agree on what a frame has for a name. -/
theorem Indexed.bound?_eq_some_iff (h : frame.Indexed) :
    frame.bound? name = some binding ↔ ∃ slot, frame.Binds slot name binding := by
  constructor
  · exact exists_binds_of_bound?
  · rintro ⟨slot, hbinds⟩
    have hmem : name ∈ frame.names := List.mem_of_getElem? (getElem?_names.mpr ⟨_, hbinds⟩)
    obtain ⟨found, hfound⟩ := Option.isSome_iff_exists.mp (isSome_bound?.mpr hmem)
    obtain ⟨place, hplace⟩ := exists_binds_of_bound? hfound
    rw [h.slot_unique hplace hbinds] at hplace
    cases hbinds.symm.trans hplace
    exact hfound

theorem Indexed.slot?_eq_some_iff (h : frame.Indexed) :
    frame.slot? name = some slot ↔ frame.names[slot]? = some name := by
  rw [h name slot, getElem?_names]

theorem Indexed.isSome_slot? (h : frame.Indexed) (name : String) :
    (frame.slot? name).isSome = (frame.bound? name).isSome := by
  rw [Bool.eq_iff_iff, isSome_bound?, Option.isSome_iff_exists, List.mem_iff_getElem?]
  simp only [h.slot?_eq_some_iff]

theorem Indexed.slot?_eq_none_iff (h : frame.Indexed) :
    frame.slot? name = none ↔ name ∉ frame.names := by
  rw [← isSome_bound?, ← h.isSome_slot?, Bool.not_eq_true, Option.isSome_eq_false_iff,
    Option.isNone_iff_eq_none]

theorem bound?_eq_none_iff : frame.bound? name = none ↔ name ∉ frame.names := by
  rw [← isSome_bound?, Bool.not_eq_true, Option.isSome_eq_false_iff, Option.isNone_iff_eq_none]

/-! ## Changes of one name -/

/-- One frame is another with a binding for a name, and otherwise the same map. The name
comes last if it is new. -/
structure Sets (frame after : Frame) (name : String) (binding : Binding) : Prop where
  enclosing : after.enclosing = frame.enclosing
  indexed : after.Indexed
  bound : after.bound? name = some binding
  others : ∀ other, other ≠ name → after.bound? other = frame.bound? other
  names : after.names = if name ∈ frame.names then frame.names else frame.names ++ [name]

/-- Two frames with right indices have the same for a name if they have it at the same
places. -/
theorem Indexed.bound?_congr {after : Frame} (h : frame.Indexed) (hafter : after.Indexed)
    (hbinds : ∀ slot binding, after.Binds slot name binding ↔ frame.Binds slot name binding) :
    after.bound? name = frame.bound? name := by
  refine Option.ext fun binding => ?_
  rw [hafter.bound?_eq_some_iff, h.bound?_eq_some_iff]
  simp only [hbinds]

theorem names_insert_of_slot (h : frame.Indexed) (hslot : frame.slot? name = some slot) :
    (frame.insert name binding).names = frame.names := by
  obtain ⟨hlt, heq⟩ := List.getElem?_eq_some_iff.mp (h.slot?_eq_some_iff.mp hslot)
  rw [insert, hslot]
  change ((frame.slots.setIfInBounds slot (name, binding)).toList.map Prod.fst) = _
  rw [Array.toList_setIfInBounds, List.map_set]
  calc (frame.names.set slot name)
    _ = frame.names.set slot frame.names[slot] := by rw [heq]
    _ = frame.names := List.set_getElem_self hlt

theorem names_insert_of_none (hslot : frame.slot? name = none) :
    (frame.insert name binding).names = frame.names ++ [name] := by
  rw [insert, hslot]
  change (frame.slots.push (name, binding)).toList.map Prod.fst = _
  rw [Array.toList_push, List.map_append]
  rfl

/-- What is bound to a name is what the frame has for the name. -/
theorem Indexed.exists_binds_insert (h : frame.Indexed) :
    ∃ slot, (frame.insert name binding).Binds slot name binding := by
  rw [Frame.insert]
  split
  · next slot hslot =>
    obtain ⟨_, hold⟩ := (h name slot).mp hslot
    have hlt : slot < frame.slots.size := (Array.getElem?_eq_some_iff.mp hold).1
    exact ⟨slot, by simp [Binds, hlt]⟩
  · exact ⟨frame.slots.size, by simp [Binds]⟩

/-- The other names keep their places and bindings. -/
theorem Indexed.binds_insert_iff (h : frame.Indexed) (hne : other ≠ name) :
    (frame.insert name bound).Binds place other binding ↔ frame.Binds place other binding := by
  constructor
  · intro hbinds
    obtain ⟨heq, _⟩ | hold := binds_of_binds_insert hbinds
    · exact (hne heq).elim
    · exact hold
  · intro hbinds
    rw [Frame.insert]
    split
    · next slot hslot =>
      obtain ⟨old, hold⟩ := (h name slot).mp hslot
      have hplace : slot ≠ place := by
        rintro rfl
        cases hold.symm.trans hbinds
        exact hne rfl
      rw [Binds, Array.getElem?_setIfInBounds, if_neg hplace]
      exact hbinds
    · have hlt : place < frame.slots.size := (Array.getElem?_eq_some_iff.mp hbinds).1
      rw [Binds, Array.getElem?_push, if_neg (Nat.ne_of_lt hlt)]
      exact hbinds

theorem Indexed.sets_insert (h : frame.Indexed) :
    frame.Sets (frame.insert name binding) name binding where
  enclosing := enclosing_insert
  indexed := h.insert
  bound := h.insert.bound?_eq_some_iff.mpr h.exists_binds_insert
  others other hne := h.bound?_congr h.insert fun _ _ => h.binds_insert_iff hne
  names := by
    cases hslot : frame.slot? name with
    | some slot =>
        have hmem : name ∈ frame.names := List.mem_of_getElem? (h.slot?_eq_some_iff.mp hslot)
        rw [if_pos hmem, names_insert_of_slot h hslot]
    | none => rw [if_neg (h.slot?_eq_none_iff.mp hslot), names_insert_of_none hslot]

theorem names_setValue : (frame.setValue slot value).names = frame.names := by
  refine List.ext_getElem? fun place => ?_
  change ((frame.slots.modify slot _).toList.map Prod.fst)[place]? = _
  rw [names, bindings, Array.toList_modify, List.getElem?_map, List.getElem?_map,
    List.getElem?_modify]
  split
  · cases frame.slots.toList[place]? <;> rfl
  · cases frame.slots.toList[place]? <;> rfl

theorem Indexed.sets_setValue (h : frame.Indexed) (hbinds : frame.Binds slot name bound) :
    frame.Sets (frame.setValue slot value) name { bound with value } where
  enclosing := rfl
  indexed := h.setValue
  bound := by
    refine h.setValue.bound?_eq_some_iff.mpr ⟨slot, ?_⟩
    exact binds_setValue_iff.mpr ⟨bound, hbinds, (if_pos rfl).symm⟩
  others other hne := by
    refine h.bound?_congr h.setValue fun place binding => ?_
    have hplace {old : Binding} (hold : frame.Binds place other old) : slot ≠ place := by
      rintro rfl
      cases hold.symm.trans hbinds
      exact hne rfl
    rw [binds_setValue_iff]
    constructor
    · rintro ⟨old, hold, rfl⟩
      rwa [if_neg (hplace hold)]
    · intro hold
      exact ⟨binding, hold, (if_neg (hplace hold)).symm⟩
  names := by
    have hmem : name ∈ frame.names := List.mem_of_getElem? (getElem?_names.mpr ⟨_, hbinds⟩)
    rw [if_pos hmem, names_setValue]

end Script.Frame
