/-
# Parts of trees

The trees that the evaluation of a tree goes on to, and the bodies of the functions that
it makes. They are smaller than the tree, and where the tree has no loop anywhere in it,
neither have they.
-/

import Mathlib.Data.List.Basic
import Script.Syntax.Tree

namespace Script

variable {σ : Type}

/-! ## Parts -/

/-- The conditions and the bodies of branches. -/
def Branches.parts : Branches σ → List (Tree σ)
  | .none => []
  | .otherwise body => [body]
  | .orIf condition body rest => condition :: body :: rest.parts

namespace Tree

/-- The trees that are evaluated to find the place that is assigned to. -/
def placeParts : Tree σ → List (Tree σ)
  | .member _ object _ => [object]
  | .index _ object key => [object, key]
  | _ => []

/-- The trees that the evaluation of a tree goes on to. -/
def parts : Tree σ → List (Tree σ)
  | .number .. | .string .. | .identifier .. | .functionDef .. | .returnNothing _
  | .breakLoop _ | .continueLoop _ => []
  | .binary _ _ left right => [left, right]
  | .unary _ _ operand => [operand]
  | .assign _ target value => value :: target.placeParts
  | .declare _ _ _ value => [value]
  | .list _ items => items
  | .member _ object _ => [object]
  | .index _ object key => [object, key]
  | .call _ callee arguments => callee :: arguments
  | .conditional _ condition body rest => condition :: body :: rest.parts
  | .whileLoop _ condition body => [condition, body]
  | .namespaceDef _ _ body => [body]
  | .returnValue _ value => [value]
  | .block _ statements => statements

/-- The body of the function that a tree defines, if it defines one. -/
def definedBody? : Tree σ → Option (Tree σ)
  | .functionDef _ _ _ _ _ body => some body
  | _ => none

/-- Whether a tree is itself a loop. -/
def isLoop : Tree σ → Bool
  | .whileLoop .. => true
  | _ => false

end Tree

theorem Branches.sizeOf_lt_of_mem_parts {branches : Branches σ} {part : Tree σ}
    (h : part ∈ branches.parts) : sizeOf part < sizeOf branches := by
  induction branches using Branches.parts.induct with
  | case1 => cases h
  | case2 body =>
      cases List.mem_singleton.mp h
      rw [Branches.otherwise.sizeOf_spec]
      omega
  | case3 condition body rest ih =>
      rw [Branches.orIf.sizeOf_spec]
      rw [Branches.parts, List.mem_cons, List.mem_cons] at h
      obtain rfl | rfl | hrest := h
      · omega
      · omega
      · have := ih hrest
        omega

namespace Tree

theorem sizeOf_lt_of_mem_placeParts {tree part : Tree σ} (h : part ∈ tree.placeParts) :
    sizeOf part < sizeOf tree := by
  cases tree with
  | member site object name =>
      cases List.mem_singleton.mp h
      rw [member.sizeOf_spec]
      omega
  | index site object key =>
      rw [placeParts, List.mem_pair] at h
      rw [index.sizeOf_spec]
      obtain rfl | rfl := h
      · omega
      · omega
  | _ => cases h

/-- A part is smaller than the tree. -/
theorem sizeOf_lt_of_mem_parts {tree part : Tree σ} (h : part ∈ tree.parts) :
    sizeOf part < sizeOf tree := by
  cases tree with
  | number site value | string site value | identifier site name | returnNothing site
  | breakLoop site | continueLoop site => cases h
  | functionDef site returnType name parameters givesBody body => cases h
  | unary site operator operand | declare site typeName name operand
  | member site operand name | namespaceDef site name operand | returnValue site operand =>
      cases List.mem_singleton.mp h
      simp only [unary.sizeOf_spec, declare.sizeOf_spec, member.sizeOf_spec,
        namespaceDef.sizeOf_spec, returnValue.sizeOf_spec]
      omega
  | binary site operator left right | index site left right | whileLoop site left right =>
      simp only [binary.sizeOf_spec, index.sizeOf_spec, whileLoop.sizeOf_spec]
      obtain rfl | rfl := List.mem_pair.mp h
      · omega
      · omega
  | assign site target value =>
      rw [assign.sizeOf_spec]
      obtain rfl | hplace := List.mem_cons.mp h
      · omega
      · have := sizeOf_lt_of_mem_placeParts hplace
        omega
  | list site trees | block site trees =>
      have hless : sizeOf part < sizeOf trees := List.sizeOf_lt_of_mem h
      simp only [list.sizeOf_spec, block.sizeOf_spec]
      omega
  | call site callee arguments =>
      rw [call.sizeOf_spec]
      obtain rfl | hargument := List.mem_cons.mp h
      · omega
      · have := List.sizeOf_lt_of_mem hargument
        omega
  | conditional site condition body rest =>
      rw [conditional.sizeOf_spec]
      rw [parts, List.mem_cons, List.mem_cons] at h
      obtain rfl | rfl | hrest := h
      · omega
      · omega
      · have := Branches.sizeOf_lt_of_mem_parts hrest
        omega

theorem sizeOf_lt_of_definedBody? {tree body : Tree σ} (h : tree.definedBody? = some body) :
    sizeOf body < sizeOf tree := by
  cases tree with
  | functionDef site returnType name parameters givesBody defined =>
      cases h
      rw [functionDef.sizeOf_spec]
      omega
  | _ => cases h

end Tree

/-! ## Trees without loops -/

mutual

/-- Whether there is a loop anywhere in a tree. -/
def Tree.hasLoop : Tree σ → Bool
  | .number .. | .string .. | .identifier .. | .returnNothing _ | .breakLoop _
  | .continueLoop _ => false
  | .binary _ _ left right => left.hasLoop || right.hasLoop
  | .unary _ _ operand => operand.hasLoop
  | .assign _ target value => target.hasLoop || value.hasLoop
  | .declare _ _ _ value => value.hasLoop
  | .list _ items => Tree.anyHasLoop items
  | .member _ object _ => object.hasLoop
  | .index _ object key => object.hasLoop || key.hasLoop
  | .call _ callee arguments => callee.hasLoop || Tree.anyHasLoop arguments
  | .functionDef _ _ _ _ _ body => body.hasLoop
  | .conditional _ condition body rest => condition.hasLoop || body.hasLoop || rest.hasLoop
  | .whileLoop .. => true
  | .namespaceDef _ _ body => body.hasLoop
  | .returnValue _ value => value.hasLoop
  | .block _ statements => Tree.anyHasLoop statements

/-- Whether there is a loop anywhere in some trees. -/
def Tree.anyHasLoop : List (Tree σ) → Bool
  | [] => false
  | tree :: rest => tree.hasLoop || Tree.anyHasLoop rest

/-- Whether there is a loop anywhere in branches. -/
def Branches.hasLoop : Branches σ → Bool
  | .none => false
  | .otherwise body => body.hasLoop
  | .orIf condition body rest => condition.hasLoop || body.hasLoop || rest.hasLoop

end

/-- There is no loop anywhere in a tree. -/
def Tree.Loopless (tree : Tree σ) : Prop := tree.hasLoop = false

instance (tree : Tree σ) : Decidable tree.Loopless := inferInstanceAs (Decidable (_ = _))

theorem Tree.loopless_of_mem {trees : List (Tree σ)} (h : Tree.anyHasLoop trees = false) :
    ∀ tree ∈ trees, tree.Loopless := by
  induction trees with
  | nil => exact List.forall_mem_nil _
  | cons tree rest ih =>
      rw [anyHasLoop, Bool.or_eq_false_iff] at h
      exact List.forall_mem_cons.mpr ⟨h.1, ih h.2⟩

theorem Branches.loopless_of_mem_parts {branches : Branches σ} {part : Tree σ}
    (h : branches.hasLoop = false) (hpart : part ∈ branches.parts) : part.Loopless := by
  induction branches using Branches.parts.induct with
  | case1 => cases hpart
  | case2 body =>
      cases List.mem_singleton.mp hpart
      exact h
  | case3 condition body rest ih =>
      rw [Branches.hasLoop, Bool.or_eq_false_iff, Bool.or_eq_false_iff] at h
      rw [Branches.parts, List.mem_cons, List.mem_cons] at hpart
      obtain rfl | rfl | hrest := hpart
      · exact h.1.1
      · exact h.1.2
      · exact ih h.2 hrest

namespace Tree.Loopless

variable {tree part : Tree σ}

theorem of_mem_placeParts (h : tree.Loopless) (hpart : part ∈ tree.placeParts) :
    part.Loopless := by
  cases tree with
  | member site object name =>
      cases List.mem_singleton.mp hpart
      exact h
  | index site object key =>
      rw [Loopless, hasLoop, Bool.or_eq_false_iff] at h
      obtain rfl | rfl := List.mem_pair.mp hpart
      · exact h.1
      · exact h.2
  | _ => cases hpart

/-- A tree without loops goes on only to trees without loops. -/
theorem of_mem_parts (h : tree.Loopless) (hpart : part ∈ tree.parts) : part.Loopless := by
  cases tree with
  | number site value | string site value | identifier site name | returnNothing site
  | breakLoop site | continueLoop site => cases hpart
  | functionDef site returnType name parameters givesBody body => cases hpart
  | unary site operator operand | declare site typeName name operand
  | member site operand name | namespaceDef site name operand | returnValue site operand =>
      cases List.mem_singleton.mp hpart
      exact h
  | binary site operator left right | index site left right =>
      rw [Loopless, hasLoop, Bool.or_eq_false_iff] at h
      obtain rfl | rfl := List.mem_pair.mp hpart
      · exact h.1
      · exact h.2
  | whileLoop site condition body => cases h
  | assign site target value =>
      rw [Loopless, hasLoop, Bool.or_eq_false_iff] at h
      obtain rfl | hplace := List.mem_cons.mp hpart
      · exact h.2
      · exact of_mem_placeParts h.1 hplace
  | list site trees | block site trees => exact loopless_of_mem h part hpart
  | call site callee arguments =>
      rw [Loopless, hasLoop, Bool.or_eq_false_iff] at h
      obtain rfl | hargument := List.mem_cons.mp hpart
      · exact h.1
      · exact loopless_of_mem h.2 part hargument
  | conditional site condition body rest =>
      rw [Loopless, hasLoop, Bool.or_eq_false_iff, Bool.or_eq_false_iff] at h
      rw [parts, List.mem_cons, List.mem_cons] at hpart
      obtain rfl | rfl | hrest := hpart
      · exact h.1.1
      · exact h.1.2
      · exact Branches.loopless_of_mem_parts h.2 hrest

theorem of_definedBody? {body : Tree σ} (h : tree.Loopless)
    (hbody : tree.definedBody? = some body) : body.Loopless := by
  cases tree with
  | functionDef site returnType name parameters givesBody defined =>
      cases hbody
      exact h
  | _ => cases hbody

theorem isLoop_eq_false (h : tree.Loopless) : tree.isLoop = false := by
  cases tree with
  | whileLoop site condition body => cases h
  | _ => rfl

end Tree.Loopless

end Script
