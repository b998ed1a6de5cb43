/-
# Evaluations

An evaluation is a plan of what to do with a session: it performs actions, asks for
the values of trees, and goes on with what it gets. It may take an early exit, which
is on its way to the loop or call that ends it. A plan says nothing of how its actions
and trees end; that is told when it is run.
-/

import Script.Eval.Action

namespace Script

/-- An early exit on its way to the loop or call that ends it. -/
inductive Exit (σ : Type) where
  | returned (value : Value) (site : σ)
  | breaking (site : σ)
  | continuing (site : σ)

/-- An evaluation that gives a value of type `α`. -/
inductive Eval (σ : Type) : Type → Type 1 where
  /-- End with a value. -/
  | give {α : Type} (value : α) : Eval σ α
  /-- Go on with what an action gives. -/
  | perform {α β : Type} (action : Action σ β) (next : β → Eval σ α) : Eval σ α
  /-- Go on with the value of a tree in a frame. -/
  | visiting {α : Type} (tree : Tree σ) (scope : FrameId) (next : Value → Eval σ α) : Eval σ α
  /-- Go on with what a body gives, or with the early exit that it takes. -/
  | attempting {α β : Type} (body : Eval σ β) (next : Except (Exit σ) β → Eval σ α) : Eval σ α
  /-- Go on with what a body gives. One more call is active in the body, unless too
  many are. -/
  | calling {α β : Type} (call : Call σ) (body : Eval σ β) (next : β → Eval σ α) : Eval σ α
  /-- Take an early exit. -/
  | leave {α : Type} (exit : Exit σ) : Eval σ α
  /-- End because the budget is used up. -/
  | exhausted {α : Type} : Eval σ α

namespace Eval

variable {σ α β : Type}

/-- Go on with the value, if there is one. -/
protected def bind : Eval σ α → (α → Eval σ β) → Eval σ β
  | give value, continuation => continuation value
  | perform action next, continuation =>
    perform action fun result => (next result).bind continuation
  | visiting tree scope next, continuation =>
    visiting tree scope fun value => (next value).bind continuation
  | attempting body next, continuation =>
    attempting body fun result => (next result).bind continuation
  | calling call body next, continuation =>
    calling call body fun value => (next value).bind continuation
  | leave exit, _ => leave exit
  | exhausted, _ => exhausted

instance : Monad (Eval σ) where
  pure := give
  bind := Eval.bind

/-- Perform an action. -/
def act (action : Action σ α) : Eval σ α := perform action give

/-- The value of a tree in a frame. -/
def visit (tree : Tree σ) (scope : FrameId) : Eval σ Value := visiting tree scope give

/-- Take an early exit of a body as a result. -/
def attempt (body : Eval σ α) : Eval σ (Except (Exit σ) α) := attempting body give

/-- Evaluate with one more call active. -/
def withCall (call : Call σ) (body : Eval σ α) : Eval σ α := calling call body give

/-- End with an error at a site. -/
def raise (fault : Fault) (site : σ) : Eval σ α := perform (.raise fault site) nofun

/-- The result of an operation on one value, or an error at a site. -/
def operation (site : σ) (result : Except OperationError Value) : Eval σ Value :=
  match result with
  | .ok value => give value
  | .error error => raise (.operation error) site

/-- The tag that a type's name stands for. -/
def resolveType (site : σ) (name : String) : Eval σ TypeTag :=
  match TypeRegistry.builtin.resolve name with
  | some tag => give tag
  | none => raise (.unknownType name) site

end Eval

end Script
