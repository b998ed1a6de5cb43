/-
# Translations of trees

A translation gives every node another site and every function another body, and changes
nothing else. Leaving all sites out is one; writing a return around every body that gives
the result itself is another.
-/

import Script.Proofs.Syntax.Shape

namespace Script

/-- What becomes of sites, and of the bodies of functions, each given with whether it gives
the result itself. -/
structure Translation (σ τ : Type) where
  site : σ → τ
  body : Bool → Tree τ → Bool × Tree τ

variable {σ τ : Type}

/-- A parameter under a translation. -/
def Parameter.translate (translation : Translation σ τ) (parameter : Parameter σ) : Parameter τ :=
  ⟨translation.site parameter.site, parameter.typeName, parameter.name⟩

mutual

/-- A tree under a translation. The body of a function is translated before its place in
the function is. -/
def Tree.translate (translation : Translation σ τ) : Tree σ → Tree τ
  | .number site value => .number (translation.site site) value
  | .string site value => .string (translation.site site) value
  | .identifier site name => .identifier (translation.site site) name
  | .binary site operator left right =>
    .binary (translation.site site) operator (left.translate translation)
      (right.translate translation)
  | .unary site operator operand =>
    .unary (translation.site site) operator (operand.translate translation)
  | .assign site target value =>
    .assign (translation.site site) (target.translate translation) (value.translate translation)
  | .declare site typeName name value =>
    .declare (translation.site site) typeName name (value.translate translation)
  | .list site items => .list (translation.site site) (Tree.translateEach translation items)
  | .member site object name =>
    .member (translation.site site) (object.translate translation) name
  | .index site object key =>
    .index (translation.site site) (object.translate translation) (key.translate translation)
  | .call site callee arguments =>
    .call (translation.site site) (callee.translate translation)
      (Tree.translateEach translation arguments)
  | .functionDef site returnType name parameters givesBody body =>
    .functionDef (translation.site site) returnType name
      (parameters.map (Parameter.translate translation))
      (translation.body givesBody (body.translate translation)).1
      (translation.body givesBody (body.translate translation)).2
  | .conditional site condition body rest =>
    .conditional (translation.site site) (condition.translate translation)
      (body.translate translation) (rest.translate translation)
  | .whileLoop site condition body =>
    .whileLoop (translation.site site) (condition.translate translation)
      (body.translate translation)
  | .namespaceDef site name body =>
    .namespaceDef (translation.site site) name (body.translate translation)
  | .returnNothing site => .returnNothing (translation.site site)
  | .returnValue site value =>
    .returnValue (translation.site site) (value.translate translation)
  | .breakLoop site => .breakLoop (translation.site site)
  | .continueLoop site => .continueLoop (translation.site site)
  | .block site statements =>
    .block (translation.site site) (Tree.translateEach translation statements)

/-- Trees in order under a translation. -/
def Tree.translateEach (translation : Translation σ τ) : List (Tree σ) → List (Tree τ)
  | [] => []
  | tree :: rest => tree.translate translation :: Tree.translateEach translation rest

/-- Branches under a translation. -/
def Branches.translate (translation : Translation σ τ) : Branches σ → Branches τ
  | .none => .none
  | .otherwise body => .otherwise (body.translate translation)
  | .orIf condition body rest =>
    .orIf (condition.translate translation) (body.translate translation)
      (rest.translate translation)

end

/-! ## Leaving sites out -/

/-- The translation that leaves all sites out. -/
def Translation.bare : Translation σ Unit where
  site _ := ()
  body givesBody body := (givesBody, body)

mutual

/-- Without its sites, a tree is its shape. -/
theorem Tree.translate_bare : ∀ tree : Tree σ, tree.translate .bare = tree.shape
  | .number .. | .string .. | .identifier .. | .returnNothing _ | .breakLoop _
  | .continueLoop _ => rfl
  | .binary _ _ left right => by
    rw [Tree.translate, Tree.shape, left.translate_bare, right.translate_bare]
  | .unary _ operator operand => congrArg (Tree.unary () operator) operand.translate_bare
  | .assign _ target value => by
    rw [Tree.translate, Tree.shape, target.translate_bare, value.translate_bare]
  | .declare _ typeName name value =>
    congrArg (Tree.declare () typeName name) value.translate_bare
  | .list _ items => congrArg (Tree.list ()) (Tree.translateEach_bare items)
  | .member _ object name => congrArg (Tree.member () · name) object.translate_bare
  | .index _ object key => by
    rw [Tree.translate, Tree.shape, object.translate_bare, key.translate_bare]
  | .call _ callee arguments => by
    rw [Tree.translate, Tree.shape, callee.translate_bare, Tree.translateEach_bare arguments]
  | .functionDef _ returnType name parameters givesBody body =>
    congrArg (Tree.functionDef () returnType name (parameters.map Parameter.shape) givesBody)
      body.translate_bare
  | .conditional _ condition body rest => by
    rw [Tree.translate, Tree.shape, condition.translate_bare, body.translate_bare,
      rest.translate_bare]
  | .whileLoop _ condition body => by
    rw [Tree.translate, Tree.shape, condition.translate_bare, body.translate_bare]
  | .namespaceDef _ name body => congrArg (Tree.namespaceDef () name) body.translate_bare
  | .returnValue _ value => congrArg (Tree.returnValue ()) value.translate_bare
  | .block _ statements => congrArg (Tree.block ()) (Tree.translateEach_bare statements)

theorem Tree.translateEach_bare :
    ∀ trees : List (Tree σ), Tree.translateEach .bare trees = Tree.shapeEach trees
  | [] => rfl
  | tree :: rest => by
    rw [Tree.translateEach, Tree.shapeEach, tree.translate_bare, Tree.translateEach_bare rest]

theorem Branches.translate_bare :
    ∀ rest : Branches σ, rest.translate .bare = rest.shape
  | .none => rfl
  | .otherwise body => congrArg Branches.otherwise body.translate_bare
  | .orIf condition body rest => by
    rw [Branches.translate, Branches.shape, condition.translate_bare, body.translate_bare,
      rest.translate_bare]

end

/-! ## Writing returns -/

/-- The translation that writes a return around every body that gives the result itself,
and braces around the return. -/
def Translation.explicit : Translation σ σ where
  site := id
  body givesBody body :=
    if givesBody then (false, .block body.site [.returnValue body.site body]) else (false, body)

/-- A tree in which no body of a function gives the result itself: one that did is a block
whose only statement returns what it gave. -/
def Tree.explicit (tree : Tree σ) : Tree σ := tree.translate .explicit

end Script
