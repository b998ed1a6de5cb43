/-
# Trees as bracketed text

A tree is written as a parenthesis that holds the node's operator or kind and then
its parts. Leaves are written as themselves. Sites are not written.
-/

import Script.Number.Display
import Script.Syntax.Tree
import Script.Text.Quoted

namespace Script

variable {σ : Type}

/-- A parameter in parentheses, after a space. -/
def Parameter.print (parameter : Parameter σ) : String :=
  " (" ++ parameter.typeName ++ " " ++ parameter.name ++ ")"

mutual

/-- A tree as bracketed text. -/
def Tree.print : Tree σ → String
  | .number _ value => value.display
  | .string _ value => Text.quote value
  | .identifier _ name => name
  | .binary _ operator left right =>
    "(" ++ operator.symbol ++ " " ++ left.print ++ " " ++ right.print ++ ")"
  | .unary _ operator operand => "(" ++ operator.symbol ++ " " ++ operand.print ++ ")"
  | .assign _ target value => "(= " ++ target.print ++ " " ++ value.print ++ ")"
  | .declare _ typeName name value =>
    "(declare " ++ typeName ++ " " ++ name ++ " " ++ value.print ++ ")"
  | .list _ items => "(list" ++ Tree.printEach items ++ ")"
  | .member _ object name => "(. " ++ object.print ++ " " ++ name ++ ")"
  | .index _ object key => "([] " ++ object.print ++ " " ++ key.print ++ ")"
  | .call _ callee arguments => "(call " ++ callee.print ++ Tree.printEach arguments ++ ")"
  | .functionDef _ returnType name parameters givesBody body =>
    "(fn " ++ returnType ++ " " ++ name ++ String.join (parameters.map Parameter.print) ++
      (if givesBody then " = " else " ") ++ body.print ++ ")"
  | .conditional _ condition body rest =>
    "(if (" ++ condition.print ++ " " ++ body.print ++ ")" ++ rest.print ++ ")"
  | .whileLoop _ condition body => "(while " ++ condition.print ++ " " ++ body.print ++ ")"
  | .namespaceDef _ name body => "(namespace " ++ name ++ " " ++ body.print ++ ")"
  | .returnNothing _ => "(return)"
  | .returnValue _ value => "(return " ++ value.print ++ ")"
  | .breakLoop _ => "break"
  | .continueLoop _ => "continue"
  | .block _ statements => "(block" ++ Tree.printEach statements ++ ")"

/-- Trees in order, each after a space. -/
def Tree.printEach : List (Tree σ) → String
  | [] => ""
  | tree :: rest => " " ++ tree.print ++ Tree.printEach rest

/-- Branches in order, each in parentheses after a space. -/
def Branches.print : Branches σ → String
  | .none => ""
  | .otherwise body => " (else " ++ body.print ++ ")"
  | .orIf condition body rest =>
    " (" ++ condition.print ++ " " ++ body.print ++ ")" ++ rest.print

end

end Script
