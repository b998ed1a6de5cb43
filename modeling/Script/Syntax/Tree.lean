/-
# Syntax trees

Statements and expressions are one type, since an expression may stand wherever a
statement may. Every node carries a site, for instance the span it was read from.
No meaning depends on sites: the type of sites is a parameter, and trees that
differ in their sites only are the same tree over the type with one element.
-/

import Script.Syntax.Operator

namespace Script

/-- A parameter of a function: its declared type and its name. -/
structure Parameter (σ : Type) where
  site : σ
  typeName : String
  name : String

mutual

/-- A statement or an expression. -/
inductive Tree (σ : Type) where
  | number (site : σ) (value : Number)
  | string (site : σ) (value : String)
  | identifier (site : σ) (name : String)
  | binary (site : σ) (operator : BinaryOperator) (left right : Tree σ)
  | unary (site : σ) (operator : UnaryOperator) (operand : Tree σ)
  /-- Give a new value to an identifier, a member or an indexed place. -/
  | assign (site : σ) (target value : Tree σ)
  /-- Bind a new name under a type. -/
  | declare (site : σ) (typeName name : String) (value : Tree σ)
  | list (site : σ) (items : List (Tree σ))
  | member (site : σ) (object : Tree σ) (name : String)
  | index (site : σ) (object key : Tree σ)
  | call (site : σ) (callee : Tree σ) (arguments : List (Tree σ))
  /-- Bind a function. Its body is an expression that gives the result, or a block
  that gives one by returning it. -/
  | functionDef (site : σ) (returnType name : String) (parameters : List (Parameter σ))
      (givesBody : Bool) (body : Tree σ)
  | conditional (site : σ) (condition body : Tree σ) (rest : Branches σ)
  | whileLoop (site : σ) (condition body : Tree σ)
  | namespaceDef (site : σ) (name : String) (body : Tree σ)
  | returnNothing (site : σ)
  | returnValue (site : σ) (value : Tree σ)
  | breakLoop (site : σ)
  | continueLoop (site : σ)
  | block (site : σ) (statements : List (Tree σ))

/-- What is tried when the condition before it fails. -/
inductive Branches (σ : Type) where
  | none
  | otherwise (body : Tree σ)
  | orIf (condition body : Tree σ) (rest : Branches σ)

end

namespace Tree

variable {σ : Type}

/-- The site of the topmost node. -/
def site : Tree σ → σ
  | number site _ | string site _ | identifier site _ | binary site .. | unary site ..
  | assign site .. | declare site .. | list site _ | member site .. | index site ..
  | call site .. | functionDef site .. | conditional site .. | whileLoop site ..
  | namespaceDef site .. | returnNothing site | returnValue site _ | breakLoop site
  | continueLoop site | block site _ => site

/-- The same tree with another site for its topmost node. -/
def withSite (site : σ) : Tree σ → Tree σ
  | number _ value => number site value
  | string _ value => string site value
  | identifier _ name => identifier site name
  | binary _ operator left right => binary site operator left right
  | unary _ operator operand => unary site operator operand
  | assign _ target value => assign site target value
  | declare _ typeName name value => declare site typeName name value
  | list _ items => list site items
  | member _ object name => member site object name
  | index _ object key => index site object key
  | call _ callee arguments => call site callee arguments
  | functionDef _ returnType name parameters givesBody body =>
    functionDef site returnType name parameters givesBody body
  | conditional _ condition body rest => conditional site condition body rest
  | whileLoop _ condition body => whileLoop site condition body
  | namespaceDef _ name body => namespaceDef site name body
  | returnNothing _ => returnNothing site
  | returnValue _ value => returnValue site value
  | breakLoop _ => breakLoop site
  | continueLoop _ => continueLoop site
  | block _ statements => block site statements

/-- Whether a tree may stand before an equals sign. -/
def isAssignable : Tree σ → Bool
  | identifier .. | member .. | index .. => true
  | _ => false

end Tree

namespace Branches

variable {σ : Type}

/-- The site of the last branch, or a given one if there is none. -/
def lastSite (before : σ) : Branches σ → σ
  | none => before
  | otherwise body => body.site
  | orIf _ body rest => rest.lastSite body.site

end Branches

end Script
