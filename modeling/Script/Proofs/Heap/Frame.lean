/-
# Frames and their indices

What binding and setting do to the places of a frame and to its index from names to
places. The index of a frame tells for each name the one place that carries the name;
both operations keep it so. Then no two places carry the same name.
-/

import Script.Heap.Frame

namespace Script.Frame

variable {frame : Frame} {place slot : Nat} {name other : String} {binding bound : Binding}
  {value : Value}

/-- A frame has a binding of a name at a place. -/
def Binds (frame : Frame) (slot : Nat) (name : String) (binding : Binding) : Prop :=
  frame.slots[slot]? = some (name, binding)

theorem not_binds_empty {enclosing : Option FrameId} :
    ¬ (empty enclosing).Binds slot name binding := by
  simp [Binds, empty]

theorem bindingAt?_eq_some_iff :
    frame.bindingAt? slot = some binding ↔ ∃ name, frame.Binds slot name binding := by
  simp [bindingAt?, Binds]

theorem setError?_eq_none_iff :
    frame.setError? slot value = none ↔
      ∀ {binding}, frame.bindingAt? slot = some binding →
        binding.declared.accepts value = true := by
  rw [setError?]
  cases frame.bindingAt? slot with
  | none => simp
  | some binding => simp

/-- The binding of a name stands at some place of the frame. -/
theorem exists_binds_of_binding? (h : frame.binding? name = some binding) :
    ∃ slot name, frame.Binds slot name binding := by
  obtain ⟨slot, _, hslot⟩ := Option.bind_eq_some_iff.mp h
  exact ⟨slot, bindingAt?_eq_some_iff.mp hslot⟩

/-! ## Binding a name -/

theorem enclosing_insert : (frame.insert name binding).enclosing = frame.enclosing := by
  rw [insert]
  split <;> rfl

/-- A binding in a frame in which a name was bound is the new one or an old one. -/
theorem binds_of_binds_insert (h : (frame.insert name bound).Binds place other binding) :
    (other = name ∧ binding = bound) ∨ frame.Binds place other binding := by
  rw [insert] at h
  split at h
  · rw [Binds, Array.getElem?_setIfInBounds] at h
    split at h
    · split at h
      · cases h
        exact .inl ⟨rfl, rfl⟩
      · cases h
    · exact .inr h
  · rw [Binds, Array.getElem?_push] at h
    split at h
    · cases h
      exact .inl ⟨rfl, rfl⟩
    · exact .inr h

/-! ## Setting a value -/

/-- A binding in a frame in which a value was set has that value or is an old one. -/
theorem binds_setValue_iff :
    (frame.setValue slot value).Binds place name binding ↔
      ∃ old, frame.Binds place name old ∧
        binding = if slot = place then { old with value } else old := by
  rw [Binds, setValue, Array.getElem?_modify]
  split
  · simp only [Option.map_eq_some_iff, Prod.exists, Prod.mk.injEq, Binds]
    constructor
    · rintro ⟨_, old, hold, rfl, rfl⟩
      exact ⟨old, hold, rfl⟩
    · rintro ⟨old, hold, rfl⟩
      exact ⟨name, old, hold, rfl, rfl⟩
  · simp [Binds]

/-! ## The index -/

/-- The index of a frame tells for each name the place that carries it. -/
def Indexed (frame : Frame) : Prop :=
  ∀ name slot, frame.slot? name = some slot ↔ ∃ binding, frame.Binds slot name binding

theorem indexed_empty {enclosing : Option FrameId} : (empty enclosing).Indexed := by
  intro name slot
  constructor
  · intro h
    have hnone : (Std.TreeMap.empty : Std.TreeMap String Nat)[name]? = none :=
      Std.TreeMap.getElem?_emptyc
    rw [slot?, empty, hnone] at h
    cases h
  · rintro ⟨binding, hbinds⟩
    exact (not_binds_empty hbinds).elim

theorem Indexed.insert (h : frame.Indexed) : (frame.insert name bound).Indexed := by
  intro other place
  rw [Frame.insert]
  split
  · next slot hslot =>
    -- the place keeps its name, so the index is still right
    obtain ⟨old, hold⟩ := (h name slot).mp hslot
    have hlt : slot < frame.slots.size := (Array.getElem?_eq_some_iff.mp hold).1
    change frame.slot? other = some place ↔ _
    rw [h]
    simp only [Binds, Array.getElem?_setIfInBounds, if_pos hlt]
    split
    · next heq =>
      rw [← heq, hold]
      simp
    · rfl
  · next hnone =>
    have hfree : ∀ {slot binding}, ¬ frame.Binds slot name binding := by
      intro slot binding hbinds
      rw [(h name slot).mpr ⟨binding, hbinds⟩] at hnone
      cases hnone
    change (frame.index.insert name frame.slots.size)[other]? = some place ↔ _
    rw [Std.TreeMap.getElem?_insert]
    simp only [Binds, Array.getElem?_push, Std.compare_eq_iff_eq]
    split
    · next heq =>
      subst heq
      constructor
      · intro hsize
        cases hsize
        exact ⟨bound, if_pos rfl⟩
      · rintro ⟨binding, hbinds⟩
        split at hbinds
        · next hsize => rw [hsize]
        · exact (hfree hbinds).elim
    · next hne =>
      change frame.slot? other = some place ↔ _
      rw [h]
      split
      · next hsize =>
        constructor
        · rintro ⟨binding, hbinds⟩
          have hlt : place < frame.slots.size := (Array.getElem?_eq_some_iff.mp hbinds).1
          omega
        · rintro ⟨binding, hbinds⟩
          cases hbinds
          exact (hne rfl).elim
      · rfl

theorem Indexed.setValue (h : frame.Indexed) : (frame.setValue slot value).Indexed := by
  intro name place
  change frame.slot? name = some place ↔ _
  rw [h]
  constructor
  · rintro ⟨old, hold⟩
    exact ⟨_, binds_setValue_iff.mpr ⟨old, hold, rfl⟩⟩
  · rintro ⟨binding, hbinds⟩
    obtain ⟨old, hold, _⟩ := binds_setValue_iff.mp hbinds
    exact ⟨old, hold⟩

/-- Where the index is right, no two places carry the same name. -/
theorem Indexed.slot_unique (h : frame.Indexed) (hbinds : frame.Binds slot name binding)
    (hother : frame.Binds place name bound) : slot = place := by
  have hslot := (h name slot).mpr ⟨binding, hbinds⟩
  have hplace := (h name place).mpr ⟨bound, hother⟩
  rw [hslot] at hplace
  exact Option.some.inj hplace

/-- Where the index is right, the names of the bindings differ. -/
theorem Indexed.names_nodup (h : frame.Indexed) : (frame.bindings.map Prod.fst).Nodup := by
  rw [List.Nodup, List.pairwise_map, List.pairwise_iff_getElem]
  intro slot place hslot hplace hlt heq
  have hbinds {slot : Nat} (hslot : slot < frame.bindings.length) :
      frame.Binds slot frame.bindings[slot].1 frame.bindings[slot].2 :=
    Array.getElem?_eq_getElem hslot
  have hfirst := hbinds hslot
  rw [heq] at hfirst
  exact Nat.ne_of_lt hlt (h.slot_unique hfirst (hbinds hplace))

end Script.Frame
