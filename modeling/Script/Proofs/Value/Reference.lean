/-
# What values refer to

A value refers to functions and to the frames of namespaces, itself or through the
elements of a list. Operations on values make no references of their own: what their
results refer to, the operands or the members of a namespace among them refer to.
-/

import Script.Value.Operation

namespace Script.Value

variable {function : FunctionId → Prop} {space : FrameId → Prop}

mutual

/-- Whether all functions and namespaces that a value refers to have a property. -/
def RefersTo (function : FunctionId → Prop) (space : FrameId → Prop) : Value → Prop
  | .list items => RefersToEach function space items
  | .function _ id => function id
  | .space _ frame => space frame
  | .number _ | .boolean _ | .string _ | .nil => True

/-- Whether all functions and namespaces that some values refer to have a property. -/
def RefersToEach (function : FunctionId → Prop) (space : FrameId → Prop) : List Value → Prop
  | [] => True
  | value :: rest => RefersTo function space value ∧ RefersToEach function space rest

end

theorem refersToEach_iff {values : List Value} :
    RefersToEach function space values ↔ ∀ value ∈ values, RefersTo function space value := by
  induction values with
  | nil => simp [RefersToEach]
  | cons value rest ih => rw [RefersToEach, ih, List.forall_mem_cons]

theorem refersTo_list_iff {items : List Value} :
    RefersTo function space (.list items) ↔ ∀ item ∈ items, RefersTo function space item := by
  rw [RefersTo, refersToEach_iff]

theorem RefersTo.imp {function' : FunctionId → Prop} {space' : FrameId → Prop}
    (hfunction : ∀ {id}, function id → function' id)
    (hspace : ∀ {frame}, space frame → space' frame) :
    ∀ {value : Value}, RefersTo function space value → RefersTo function' space' value
  | .list items, h => by
      rw [refersTo_list_iff] at h ⊢
      intro item hitem
      exact (h item hitem).imp hfunction hspace
  | .function _ _, h => hfunction h
  | .space _ _, h => hspace h
  | .number _, _ | .boolean _, _ | .string _, _ | .nil, _ => trivial

theorem refersTo_trivial : ∀ {value : Value}, RefersTo (fun _ => True) (fun _ => True) value
  | .list items => refersTo_list_iff.mpr fun _ _ => refersTo_trivial
  | .function _ _ | .space _ _ | .number _ | .boolean _ | .string _ | .nil => trivial

/-! ## Operations -/

theorem refersTo_of_numeric {operator : BinaryOperator}
    {operation : Number → Number → Except ArithmeticError Number} {left right value : Value}
    (h : numeric operator operation left right = .ok value) : RefersTo function space value := by
  unfold numeric at h
  split at h
  · split at h
    · cases h
      trivial
    · cases h
  · cases h

theorem refersTo_of_compares {operator : BinaryOperator} {test : Ordering → Bool}
    {left right value : Value} (h : compares operator test left right = .ok value) :
    RefersTo function space value := by
  unfold compares at h
  split at h
  all_goals
    cases h
  all_goals
    trivial

theorem refersTo_of_add {left right value : Value} (h : add left right = .ok value)
    (hleft : RefersTo function space left) (hright : RefersTo function space right) :
    RefersTo function space value := by
  unfold add at h
  split at h
  · cases h
    trivial
  · cases h
    rw [refersTo_list_iff] at hleft hright ⊢
    intro item hitem
    rcases List.mem_append.mp hitem with hitem | hitem
    · exact hleft item hitem
    · exact hright item hitem
  · exact refersTo_of_numeric h

/-- Items that are taken in turn are among those of the row. -/
theorem mem_of_mem_takeAround {items rest taken : List Value} {size : Nat} {item : Value}
    (h : item ∈ takeAround items rest size taken) :
    item ∈ taken ∨ item ∈ rest ∨ item ∈ items := by
  fun_induction takeAround items rest size taken with
  | case1 rest taken => exact .inl (List.mem_reverse.mp h)
  | case2 first rest size taken ih => grind
  | case3 size taken => exact .inl (List.mem_reverse.mp h)
  | case4 size taken first rest ih => grind

theorem refersTo_of_multiply {left right value : Value} (h : multiply left right = .ok value)
    (hleft : RefersTo function space left) : RefersTo function space value := by
  unfold multiply at h
  split at h
  · split at h
    · cases h
      trivial
    · cases h
  · split at h
    · cases h
      rw [refersTo_list_iff] at hleft ⊢
      intro item hitem
      obtain hmem | hmem | hmem := mem_of_mem_takeAround hitem
      · cases hmem
      · exact hleft item hmem
      · exact hleft item hmem
    · cases h
  · exact refersTo_of_numeric h

/-- What an operator gives refers to what its operands refer to. -/
theorem refersTo_of_apply {heap : Heap} {operator : BinaryOperator} {left right value : Value}
    (h : apply heap operator left right = .ok value) (hleft : RefersTo function space left)
    (hright : RefersTo function space right) : RefersTo function space value := by
  cases operator with
  | add => exact refersTo_of_add h hleft hright
  | multiply => exact refersTo_of_multiply h hleft
  | subtract | divide | modulo =>
      rw [apply] at h
      exact refersTo_of_numeric h
  | less | lessEqual | greater | greaterEqual =>
      rw [apply] at h
      exact refersTo_of_compares h
  | equal | notEqual | and | or =>
      cases h
      trivial

theorem refersTo_of_applyUnary {operator : UnaryOperator} {operand value : Value}
    (h : applyUnary operator operand = .ok value) : RefersTo function space value := by
  unfold applyUnary at h
  split at h
  all_goals
    cases h
  all_goals
    trivial

/-- What an object holds at a key is referred to by it, or a member of it. -/
theorem refersTo_of_index {heap : Heap} {object key value : Value}
    (h : index heap object key = .ok value) (hobject : RefersTo function space object)
    (hmember : ∀ {frame name binding}, space frame → heap.binding? frame name = some binding →
      RefersTo function space binding.value) :
    RefersTo function space value := by
  unfold index at h
  split at h
  · next items place _ =>
    cases h
    rw [refersTo_list_iff] at hobject
    cases hitem : (place? items.length place).bind (items[·]?) with
    | none => trivial
    | some item =>
        obtain ⟨position, _, hget⟩ := Option.bind_eq_some_iff.mp hitem
        exact hobject item (List.mem_of_getElem? hget)
  · next text place _ =>
    cases h
    cases (place? text.toList.length place).bind (text.toList[·]?) <;> trivial
  · next _ frame name =>
    cases h
    cases hbinding : heap.binding? frame name with
    | none => trivial
    | some binding => exact hmember hobject hbinding
  · cases h

end Script.Value
