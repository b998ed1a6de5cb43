/-
# Evaluating trees

What the evaluation of each kind of tree does, in terms of actions and of the values
of its parts. Each kind is stated on its own. A loop is given a bound for its rounds,
which only makes the definition total.
-/

import Script.Eval.Native

namespace Script.Eval

variable {σ : Type}

/-- The values of trees in order, behind the values before them, which are given last
first. -/
def each (scope : FrameId) (before : List Value) : List (Tree σ) → Eval σ (List Value)
  | [] => return before.reverse
  | tree :: rest => do
    let value ← visit tree scope
    each scope (value :: before) rest

/-- The value of the last of some trees, or a given one if there is none. -/
def last (scope : FrameId) (before : Value) : List (Tree σ) → Eval σ Value
  | [] => return before
  | tree :: rest => do
    let value ← visit tree scope
    last scope value rest

/-- An operator between two trees. The second is not evaluated where the first
decides about a conjunction or disjunction. -/
def binary (site : σ) (operator : BinaryOperator) (left right : Tree σ) (scope : FrameId) :
    Eval σ Value := do
  let leftValue ← visit left scope
  match operator, leftValue.isTruthy with
  | .and, false => return .boolean false
  | .or, true => return .boolean true
  | .and, true | .or, false => return .boolean (← visit right scope).isTruthy
  | _, _ =>
    let rightValue ← visit right scope
    act (.apply site operator leftValue rightValue)

/-- An operator before a tree. -/
def unary (site : σ) (operator : UnaryOperator) (operand : Tree σ) (scope : FrameId) :
    Eval σ Value := do
  let value ← visit operand scope
  operation site (value.applyUnary operator)

/-- Write a member of what an object turns out to be. Only namespaces have members;
a write to anything else is dropped. -/
def assignMember (site : σ) (object key value : Value) : Eval σ Unit :=
  match object, key with
  | .space _ frame, .string name => act (.setMember site frame name value)
  | .space .., _ => raise (.badKey key.tag) site
  | _, _ => return ()

/-- An assignment. The value is evaluated before the place. -/
def assignment (target value : Tree σ) (scope : FrameId) : Eval σ Value := do
  let value ← visit value scope
  match target with
  | .identifier site name => act (.assign site scope name value)
  | .member site object name =>
    let object ← visit object scope
    assignMember site object (.string name) value
  | .index site object key =>
    let object ← visit object scope
    let key ← visit key scope
    assignMember site object key value
  | _ => raise .invalidTarget target.site
  return value

/-- The declaration of a name. Its type is looked up before the value is evaluated. -/
def declaration (site : σ) (typeName name : String) (value : Tree σ) (scope : FrameId) :
    Eval σ Value := do
  let declared ← resolveType site typeName
  let value ← visit value scope
  act (.declare site scope name declared value)
  return value

/-- A member of an object. -/
def member (site : σ) (object : Tree σ) (name : String) (scope : FrameId) : Eval σ Value := do
  match ← visit object scope with
  | .space _ frame => act (.member frame name)
  | other => raise (.noMember other.tag name) site

/-- What an object holds at a key. -/
def element (site : σ) (object key : Tree σ) (scope : FrameId) : Eval σ Value := do
  let object ← visit object scope
  let key ← visit key scope
  act (.element site object key)

/-- Declare parameters in a frame, each with its argument. -/
def bindParameters (site : σ) (scope : FrameId) : List TypedName → List Value → Eval σ Unit
  | parameter :: parameters, argument :: arguments => do
    act (.declare site scope parameter.name parameter.declared argument)
    bindParameters site scope parameters arguments
  | _, _ => return ()

/-- The result of a function's body: what it gives or what it returns. A loop's exit
cannot leave a function. -/
def result (closure : Closure σ) (scope : FrameId) : Eval σ Value := do
  match ← attempt (visit closure.body scope) with
  | .ok value => return if closure.givesBody then value else .nil
  | .error (.returned value _) => return value
  | .error (.breaking site) => raise .strayBreak site
  | .error (.continuing site) => raise .strayContinue site

/-- The body of a call: bind the arguments in a new frame, evaluate, and check the
result. Every function may give nil. -/
def invoke (site : σ) (name : String) (closure : Closure σ) (arguments : List Value) :
    Eval σ Value := do
  let scope ← act (.enter closure.scope)
  bindParameters site scope closure.parameters arguments
  let value ← result closure scope
  if value.isNil || closure.returnType.accepts value then return value
  else raise (.badReturn value.tag closure.returnType name) site

/-- Call a function with as many arguments as it takes. -/
def callFunction (site : σ) (name : String) (function : Function σ) (arguments : List Value) :
    Eval σ Value :=
  match function with
  | .native native => native.call site (arguments.headD .nil)
  | .closure definition =>
    withCall ⟨name, site⟩ (invoke site name definition arguments)

/-- A call. Arguments are evaluated before it is known whether there is something to
call. -/
def call (site : σ) (callee : Tree σ) (arguments : List (Tree σ)) (scope : FrameId) :
    Eval σ Value := do
  let callee ← visit callee scope
  let arguments ← each scope [] arguments
  match callee with
  | .function name id =>
    match ← act (.function? id) with
    | none => raise (.notCallable .function) site
    | some function =>
      if arguments.length = function.arity then callFunction site name function arguments
      else raise (.argumentCount arguments.length function.arity name) site
  | other => raise (.notCallable other.tag) site

/-- The types of parameters. -/
def resolveParameters : List (Parameter σ) → Eval σ (List TypedName)
  | [] => return []
  | parameter :: rest => do
    let declared ← resolveType parameter.site parameter.typeName
    return ⟨parameter.name, declared⟩ :: (← resolveParameters rest)

/-- The definition of a function. -/
def functionDef (site : σ) (returnType name : String) (parameters : List (Parameter σ))
    (givesBody : Bool) (body : Tree σ) (scope : FrameId) : Eval σ Value := do
  let returnType ← resolveType site returnType
  let parameters ← resolveParameters parameters
  let id ← act (.pushFunction (.closure ⟨parameters, returnType, givesBody, body, scope⟩))
  let value := Value.function name id
  act (.bindDefinition site scope name value)
  return value

/-- The body of a branch, in a frame of its own. -/
def inside (body : Tree σ) (scope : FrameId) : Eval σ Value := do
  let inner ← act (.enter scope)
  visit body inner

/-- The first branch that applies, or nil. -/
def branches (scope : FrameId) : Branches σ → Eval σ Value
  | .none => return .nil
  | .otherwise body => inside body scope
  | .orIf condition body rest => do
    if (← visit condition scope).isTruthy then inside body scope
    else branches scope rest

/-- The rounds of a loop, at most as many as the bound, with the value so far. A
round that is left early keeps the value of the one before. -/
def rounds (condition body : Tree σ) (scope : FrameId) : Nat → Value → Eval σ Value
  | 0, _ => exhausted
  | bound + 1, value => do
    if (← visit condition scope).isTruthy then
      match ← attempt (inside body scope) with
      | .ok value => rounds condition body scope bound value
      | .error (.breaking _) => return value
      | .error (.continuing _) => rounds condition body scope bound value
      | .error (.returned value site) => leave (.returned value site)
    else return value

/-- The definition of a namespace. Its members are what its body binds. -/
def namespaceDef (site : σ) (name : String) (body : Tree σ) (scope : FrameId) :
    Eval σ Value := do
  let inner ← act (.enter scope)
  let _ ← visit body inner
  let value := Value.space name inner
  act (.bindDefinition site scope name value)
  return value

/-- A return with a value. -/
def returnValue (site : σ) (value : Tree σ) (scope : FrameId) : Eval σ Value := do
  let value ← visit value scope
  leave (.returned value site)

/-- The evaluation of a tree in a frame, with a bound for the rounds of a loop. -/
def step (bound : Nat) (tree : Tree σ) (scope : FrameId) : Eval σ Value :=
  match tree with
  | .number _ value => give (.number value)
  | .string _ value => give (.string value)
  | .identifier site name => act (.lookup site scope name)
  | .binary site operator left right => binary site operator left right scope
  | .unary site operator operand => unary site operator operand scope
  | .assign _ target value => assignment target value scope
  | .declare site typeName name value => declaration site typeName name value scope
  | .list _ items => Value.list <$> each scope [] items
  | .member site object name => member site object name scope
  | .index site object key => element site object key scope
  | .call site callee arguments => call site callee arguments scope
  | .functionDef site returnType name parameters givesBody body =>
    functionDef site returnType name parameters givesBody body scope
  | .conditional _ condition body rest => branches scope (.orIf condition body rest)
  | .whileLoop _ condition body => rounds condition body scope bound .nil
  | .namespaceDef site name body => namespaceDef site name body scope
  | .returnNothing site => leave (.returned .nil site)
  | .returnValue site value => returnValue site value scope
  | .breakLoop site => leave (.breaking site)
  | .continueLoop site => leave (.continuing site)
  | .block _ statements => last scope .nil statements

end Script.Eval
