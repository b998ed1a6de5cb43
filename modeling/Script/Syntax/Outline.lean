/-
# Outlines

An outline lists the nodes of a tree, every node before its parts, with the depth
of each and a label that names its kind. Parameters are listed as nodes between a
function and its body.
-/

import Script.Number.Display
import Script.Syntax.Tree

namespace Script

variable {σ : Type}

/-- A node in an outline. -/
structure OutlineRow (σ : Type) where
  depth : Nat
  label : String
  site : σ

/-- What a node is called in an outline. -/
def Tree.label : Tree σ → String
  | .number _ value => "Number " ++ value.display
  | .string .. => "Str"
  | .identifier _ name => "Identifier " ++ name
  | .binary _ operator .. => "Binary " ++ operator.symbol
  | .unary _ operator _ => "Unary " ++ operator.symbol
  | .assign .. => "Assign"
  | .declare _ _ name _ => "Declare " ++ name
  | .list .. => "List"
  | .member _ _ name => "Member " ++ name
  | .index .. => "Index"
  | .call .. => "Call"
  | .functionDef _ _ name .. => "FunctionDef " ++ name
  | .conditional .. => "If"
  | .whileLoop .. => "While"
  | .namespaceDef _ name _ => "Namespace " ++ name
  | .returnNothing _ | .returnValue .. => "Return"
  | .breakLoop _ => "Break"
  | .continueLoop _ => "Continue"
  | .block .. => "Block"

/-- A parameter as a node. -/
def Parameter.row (depth : Nat) (parameter : Parameter σ) : OutlineRow σ :=
  ⟨depth, "Param " ++ parameter.name, parameter.site⟩

mutual

/-- The nodes of a tree whose topmost node has a given depth, before other rows. -/
def Tree.rowsBefore (depth : Nat) (tree : Tree σ) (rows : List (OutlineRow σ)) :
    List (OutlineRow σ) :=
  ⟨depth, tree.label, tree.site⟩ ::
    match tree with
    | .number .. | .string .. | .identifier .. | .returnNothing _ | .breakLoop _
    | .continueLoop _ => rows
    | .binary _ _ left right =>
      left.rowsBefore (depth + 1) (right.rowsBefore (depth + 1) rows)
    | .unary _ _ operand => operand.rowsBefore (depth + 1) rows
    | .assign _ target value =>
      target.rowsBefore (depth + 1) (value.rowsBefore (depth + 1) rows)
    | .declare _ _ _ value => value.rowsBefore (depth + 1) rows
    | .list _ items => Tree.eachBefore (depth + 1) items rows
    | .member _ object _ => object.rowsBefore (depth + 1) rows
    | .index _ object key => object.rowsBefore (depth + 1) (key.rowsBefore (depth + 1) rows)
    | .call _ callee arguments =>
      callee.rowsBefore (depth + 1) (Tree.eachBefore (depth + 1) arguments rows)
    | .functionDef _ _ _ parameters _ body =>
      parameters.map (Parameter.row (depth + 1)) ++ body.rowsBefore (depth + 1) rows
    | .conditional _ condition body rest =>
      condition.rowsBefore (depth + 1)
        (body.rowsBefore (depth + 1) (rest.rowsBefore (depth + 1) rows))
    | .whileLoop _ condition body =>
      condition.rowsBefore (depth + 1) (body.rowsBefore (depth + 1) rows)
    | .namespaceDef _ _ body => body.rowsBefore (depth + 1) rows
    | .returnValue _ value => value.rowsBefore (depth + 1) rows
    | .block _ statements => Tree.eachBefore (depth + 1) statements rows

/-- The nodes of several trees in order, before other rows. -/
def Tree.eachBefore (depth : Nat) (trees : List (Tree σ)) (rows : List (OutlineRow σ)) :
    List (OutlineRow σ) :=
  match trees with
  | [] => rows
  | tree :: rest => tree.rowsBefore depth (Tree.eachBefore depth rest rows)

/-- The nodes of branches in order, before other rows. -/
def Branches.rowsBefore (depth : Nat) (branches : Branches σ) (rows : List (OutlineRow σ)) :
    List (OutlineRow σ) :=
  match branches with
  | .none => rows
  | .otherwise body => body.rowsBefore depth rows
  | .orIf condition body rest =>
    condition.rowsBefore depth (body.rowsBefore depth (rest.rowsBefore depth rows))

end

/-- The outline of a tree. -/
def Tree.outline (tree : Tree σ) : List (OutlineRow σ) := tree.rowsBefore 0 []

end Script
