/-
# Children of trees

All trees that a tree is made of, in the order in which they are written, whether or not
its evaluation goes on to them. The children and the parameters of a tree have sites of
their own.
-/

import Script.Proofs.Syntax.Parts

namespace Script

variable {σ : Type}

namespace Tree

/-- The trees directly inside a tree. -/
def children : Tree σ → List (Tree σ)
  | .number .. | .string .. | .identifier .. | .returnNothing _ | .breakLoop _
  | .continueLoop _ => []
  | .binary _ _ left right => [left, right]
  | .unary _ _ operand => [operand]
  | .assign _ target value => [target, value]
  | .declare _ _ _ value => [value]
  | .list _ items => items
  | .member _ object _ => [object]
  | .index _ object key => [object, key]
  | .call _ callee arguments => callee :: arguments
  | .functionDef _ _ _ _ _ body => [body]
  | .conditional _ condition body rest => condition :: body :: rest.parts
  | .whileLoop _ condition body => [condition, body]
  | .namespaceDef _ _ body => [body]
  | .returnValue _ value => [value]
  | .block _ statements => statements

/-- The sites of the parameters of a tree that defines a function. -/
def parameterSites : Tree σ → List σ
  | .functionDef _ _ _ parameters _ _ => parameters.map Parameter.site
  | _ => []

/-- The sites of what is directly inside a tree, parameters included. -/
def childSites (tree : Tree σ) : List σ := tree.parameterSites ++ tree.children.map site

/-- Whether a tree is a row of statements. -/
def isBlock : Tree σ → Bool
  | .block .. => true
  | _ => false

/-- A node of a tree: the tree itself or a node of a child. -/
inductive Has : Tree σ → Tree σ → Prop
  | self {tree : Tree σ} : Has tree tree
  | inside {tree child node : Tree σ} : child ∈ tree.children → Has child node → Has tree node

theorem children_withSite (site : σ) (tree : Tree σ) :
    (tree.withSite site).children = tree.children := by
  cases tree <;> rfl

theorem parameterSites_withSite (site : σ) (tree : Tree σ) :
    (tree.withSite site).parameterSites = tree.parameterSites := by
  cases tree <;> rfl

theorem childSites_withSite (site : σ) (tree : Tree σ) :
    (tree.withSite site).childSites = tree.childSites := by
  rw [childSites, parameterSites_withSite, children_withSite, childSites]

theorem site_withSite (site : σ) (tree : Tree σ) : (tree.withSite site).site = site := by
  cases tree <;> rfl

end Tree

end Script
