/-
# Shapes of trees

The shape of a tree is what is left of it without its sites. Two trees that were
read from different places, or written with different blanks and brackets, are the
same program exactly if they have the same shape.
-/

import Script.Syntax.Tree

namespace Script

variable {σ : Type}

/-- A parameter without its site. -/
def Parameter.shape (parameter : Parameter σ) : Parameter Unit :=
  ⟨(), parameter.typeName, parameter.name⟩

mutual

/-- A tree without its sites. -/
def Tree.shape : Tree σ → Tree Unit
  | .number _ value => .number () value
  | .string _ value => .string () value
  | .identifier _ name => .identifier () name
  | .binary _ operator left right => .binary () operator left.shape right.shape
  | .unary _ operator operand => .unary () operator operand.shape
  | .assign _ target value => .assign () target.shape value.shape
  | .declare _ typeName name value => .declare () typeName name value.shape
  | .list _ items => .list () (Tree.shapeEach items)
  | .member _ object name => .member () object.shape name
  | .index _ object key => .index () object.shape key.shape
  | .call _ callee arguments => .call () callee.shape (Tree.shapeEach arguments)
  | .functionDef _ returnType name parameters givesBody body =>
    .functionDef () returnType name (parameters.map Parameter.shape) givesBody body.shape
  | .conditional _ condition body rest => .conditional () condition.shape body.shape rest.shape
  | .whileLoop _ condition body => .whileLoop () condition.shape body.shape
  | .namespaceDef _ name body => .namespaceDef () name body.shape
  | .returnNothing _ => .returnNothing ()
  | .returnValue _ value => .returnValue () value.shape
  | .breakLoop _ => .breakLoop ()
  | .continueLoop _ => .continueLoop ()
  | .block _ statements => .block () (Tree.shapeEach statements)

/-- Trees in order without their sites. -/
def Tree.shapeEach : List (Tree σ) → List (Tree Unit)
  | [] => []
  | tree :: rest => tree.shape :: Tree.shapeEach rest

/-- Branches without their sites. -/
def Branches.shape : Branches σ → Branches Unit
  | .none => .none
  | .otherwise body => .otherwise body.shape
  | .orIf condition body rest => .orIf condition.shape body.shape rest.shape

end

theorem Tree.shapeEach_eq_map (trees : List (Tree σ)) :
    Tree.shapeEach trees = trees.map Tree.shape := by
  induction trees with
  | nil => rfl
  | cons tree rest ih => rw [Tree.shapeEach, ih, List.map_cons]

@[simp]
theorem Tree.shape_withSite (site : σ) (tree : Tree σ) :
    (tree.withSite site).shape = tree.shape := by
  cases tree <;> rfl

@[simp]
theorem Tree.isAssignable_shape (tree : Tree σ) :
    tree.shape.isAssignable = tree.isAssignable := by
  cases tree <;> rfl

end Script
