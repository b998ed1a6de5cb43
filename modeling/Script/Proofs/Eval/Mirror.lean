/-
# Plans under a translation

The plan of a tree under a translation mirrors the plan of the tree, form by form, if the
trees that it visits do. The results of functions are the one exception: a translation may
change who gives them, so that they are the same is a hypothesis here.
-/

import Script.Proofs.Eval.Translation

namespace Script.Eval

variable {σ τ : Type} {translation : Translation σ τ} {mirroring : Mirroring translation}

/-! ## Types and trees in a row -/

theorem mirrors_operation (site : σ) (result : Except OperationError Value) :
    Mirrors mirroring id (operation site result) (operation (translation.site site) result) := by
  cases result with
  | ok value => exact mirrors_give value
  | error error => exact mirrors_raise _ site

theorem mirrors_resolveType (site : σ) (name : String) :
    Mirrors mirroring id (resolveType site name) (resolveType (translation.site site) name) := by
  rw [resolveType, resolveType]
  split
  · exact mirrors_give _
  · exact mirrors_raise _ site

theorem mirrors_resolveParameters (parameters : List (Parameter σ)) :
    Mirrors mirroring id (resolveParameters parameters)
      (resolveParameters (parameters.map (Parameter.translate translation))) := by
  induction parameters with
  | nil => exact mirrors_give _
  | cons parameter rest ih =>
      refine (mirrors_resolveType _ _).bind fun declared => ?_
      exact ih.bind fun others => mirrors_give _

theorem mirrors_each (h : MirrorsTrees mirroring) (scope : FrameId) (before : List Value)
    (trees : List (Tree σ)) :
    Mirrors mirroring id (each scope before trees)
      (each scope before (Tree.translateEach translation trees)) := by
  induction trees generalizing before with
  | nil => exact mirrors_give _
  | cons tree rest ih =>
      exact (mirrors_visit h tree scope).bind fun value => ih (value :: before)

theorem mirrors_last (h : MirrorsTrees mirroring) (scope : FrameId) (before : Value)
    (trees : List (Tree σ)) :
    Mirrors mirroring id (last scope before trees)
      (last scope before (Tree.translateEach translation trees)) := by
  induction trees generalizing before with
  | nil => exact mirrors_give _
  | cons tree rest ih => exact (mirrors_visit h tree scope).bind fun value => ih value

/-! ## Operators and places -/

theorem mirrors_binary (h : MirrorsTrees mirroring) (site : σ) (operator : BinaryOperator)
    (left right : Tree σ) (scope : FrameId) :
    Mirrors mirroring id (binary site operator left right scope)
      (binary (translation.site site) operator (left.translate translation)
        (right.translate translation) scope) := by
  refine (mirrors_visit h left scope).bind fun leftValue => ?_
  dsimp only [id]
  split
  · exact mirrors_give _
  · exact mirrors_give _
  · exact (mirrors_visit h right scope).bind fun rightValue => mirrors_give _
  · exact (mirrors_visit h right scope).bind fun rightValue => mirrors_give _
  · exact (mirrors_visit h right scope).bind fun rightValue => mirrors_act .apply

theorem mirrors_unary (h : MirrorsTrees mirroring) (site : σ) (operator : UnaryOperator)
    (operand : Tree σ) (scope : FrameId) :
    Mirrors mirroring id (unary site operator operand scope)
      (unary (translation.site site) operator (operand.translate translation) scope) :=
  (mirrors_visit h operand scope).bind fun _ => mirrors_operation site _

theorem mirrors_assignMember (site : σ) (object key value : Value) :
    Mirrors mirroring id (assignMember site object key value)
      (assignMember (translation.site site) object key value) := by
  rw [assignMember.eq_def, assignMember.eq_def]
  split
  · exact mirrors_act .setMember
  · exact mirrors_raise _ site
  · exact mirrors_give _

theorem mirrors_assignment (h : MirrorsTrees mirroring) (target value : Tree σ)
    (scope : FrameId) :
    Mirrors mirroring id (assignment target value scope)
      (assignment (target.translate translation) (value.translate translation) scope) := by
  refine (mirrors_visit h value scope).bind fun given => ?_
  cases target with
  | identifier site name => exact (mirrors_act .assign).bind fun _ => mirrors_give _
  | member site object name =>
      refine (mirrors_visit h object scope).bind fun object => ?_
      exact (mirrors_assignMember site _ _ _).bind fun _ => mirrors_give _
  | index site object key =>
      refine (mirrors_visit h object scope).bind fun object => ?_
      refine (mirrors_visit h key scope).bind fun key => ?_
      exact (mirrors_assignMember site _ _ _).bind fun _ => mirrors_give _
  | _ => exact (mirrors_raise .invalidTarget _).bind fun _ => mirrors_give _

theorem mirrors_declaration (h : MirrorsTrees mirroring) (site : σ) (typeName name : String)
    (value : Tree σ) (scope : FrameId) :
    Mirrors mirroring id (declaration site typeName name value scope)
      (declaration (translation.site site) typeName name (value.translate translation) scope) := by
  refine (mirrors_resolveType site typeName).bind fun declared => ?_
  refine (mirrors_visit h value scope).bind fun value => ?_
  exact (mirrors_act .declare).bind fun _ => mirrors_give _

theorem mirrors_member (h : MirrorsTrees mirroring) (site : σ) (object : Tree σ)
    (name : String) (scope : FrameId) :
    Mirrors mirroring id (member site object name scope)
      (member (translation.site site) (object.translate translation) name scope) := by
  refine (mirrors_visit h object scope).bind fun object => ?_
  cases object with
  | space _ frame => exact mirrors_act .member
  | _ => exact mirrors_raise _ site

theorem mirrors_element (h : MirrorsTrees mirroring) (site : σ) (object key : Tree σ)
    (scope : FrameId) :
    Mirrors mirroring id (element site object key scope)
      (element (translation.site site) (object.translate translation)
        (key.translate translation) scope) := by
  refine (mirrors_visit h object scope).bind fun object => ?_
  exact (mirrors_visit h key scope).bind fun key => mirrors_act .element

/-! ## Functions and calls -/

theorem mirrors_native (site : σ) (native : Native) (argument : Value) :
    Mirrors mirroring id (native.call site argument)
      (native.call (translation.site site) argument) := by
  cases native with
  | print =>
      refine (mirrors_act .display).bind fun text => ?_
      exact (mirrors_act .write).bind fun _ => mirrors_give _
  | println =>
      refine (mirrors_act .display).bind fun text => ?_
      refine (mirrors_act .write).bind fun _ => ?_
      exact (mirrors_act .write).bind fun _ => mirrors_give _
  | len =>
      refine (mirrors_act .length?).bind fun length => ?_
      cases length with
      | some length => exact mirrors_give _
      | none => exact mirrors_raise _ site
  | str => exact (mirrors_act .display).bind fun text => mirrors_give _

theorem mirrors_bindParameters (site : σ) (scope : FrameId) (parameters : List TypedName)
    (arguments : List Value) :
    Mirrors mirroring id (bindParameters site scope parameters arguments)
      (bindParameters (translation.site site) scope parameters arguments) := by
  induction parameters generalizing arguments with
  | nil => exact mirrors_give _
  | cons parameter parameters ih =>
      cases arguments with
      | nil => exact mirrors_give _
      | cons argument arguments => exact (mirrors_act .declare).bind fun _ => ih arguments

/-- Bodies that end alike give the same result, if both or neither of them give it. -/
theorem mirrors_result {closure : Closure σ} {other : Closure τ} {scope : FrameId}
    (hgives : other.givesBody = closure.givesBody)
    (hbody : Mirrors mirroring id (visit closure.body scope) (visit other.body scope)) :
    Mirrors mirroring id (result closure scope) (result other scope) := by
  refine hbody.attempt.bind fun ended => ?_
  cases ended with
  | ok value =>
      rw [← hgives]
      exact mirrors_give _
  | error exit =>
      cases exit with
      | returned value site => exact mirrors_give _
      | breaking site => exact mirrors_raise _ site
      | continuing site => exact mirrors_raise _ site

/-- Functions under the translation have the results that the functions have. -/
def MirrorsResults (mirroring : Mirroring translation) : Prop :=
  ∀ (closure : Closure σ) (scope : FrameId),
    Mirrors mirroring id (result closure scope) (result (closure.translate translation) scope)

theorem mirrors_invoke (hresult : MirrorsResults mirroring) (site : σ) (name : String)
    (closure : Closure σ) (arguments : List Value) :
    Mirrors mirroring id (invoke site name closure arguments)
      (invoke (translation.site site) name (closure.translate translation) arguments) := by
  refine (mirrors_act .enter).bind fun scope => ?_
  refine (mirrors_bindParameters site scope _ _).bind fun _ => ?_
  refine (hresult closure scope).bind fun value => ?_
  exact mirrors_ite (mirrors_give value) (mirrors_raise _ site)

theorem mirrors_callFunction (hresult : MirrorsResults mirroring) (site : σ) (name : String)
    (function : Function σ) (arguments : List Value) :
    Mirrors mirroring id (callFunction site name function arguments)
      (callFunction (translation.site site) name (function.translate translation) arguments) := by
  cases function with
  | native native => exact mirrors_native site native _
  | closure definition =>
      exact (mirrors_invoke hresult site name definition arguments).withCall ⟨name, site⟩

theorem mirrors_call (h : MirrorsTrees mirroring) (hresult : MirrorsResults mirroring)
    (site : σ) (callee : Tree σ) (arguments : List (Tree σ)) (scope : FrameId) :
    Mirrors mirroring id (call site callee arguments scope)
      (call (translation.site site) (callee.translate translation)
        (Tree.translateEach translation arguments) scope) := by
  refine (mirrors_visit h callee scope).bind fun callee => ?_
  refine (mirrors_each h scope [] arguments).bind fun arguments => ?_
  cases callee with
  | function name id =>
      refine (mirrors_act .function?).bind fun function => ?_
      cases function with
      | none => exact mirrors_raise _ site
      | some function =>
          simp only [Option.map_some, Function.arity_translate]
          exact mirrors_ite (mirrors_callFunction hresult site name function arguments)
            (mirrors_raise _ site)
  | _ => exact mirrors_raise _ site

theorem mirrors_functionDef (site : σ) (returnType name : String)
    (parameters : List (Parameter σ)) (givesBody : Bool) (body : Tree σ) (scope : FrameId) :
    Mirrors mirroring id
      (functionDef site returnType name parameters givesBody body scope)
      (functionDef (translation.site site) returnType name
        (parameters.map (Parameter.translate translation))
        (translation.body givesBody (body.translate translation)).1
        (translation.body givesBody (body.translate translation)).2 scope) := by
  refine (mirrors_resolveType site returnType).bind fun returnType => ?_
  refine (mirrors_resolveParameters parameters).bind fun parameters => ?_
  refine (mirrors_act .pushFunction).bind fun id => ?_
  exact (mirrors_act .bindDefinition).bind fun _ => mirrors_give _

/-! ## Bodies -/

theorem mirrors_inside (h : MirrorsTrees mirroring) (body : Tree σ) (scope : FrameId) :
    Mirrors mirroring id (inside body scope) (inside (body.translate translation) scope) :=
  (mirrors_act .enter).bind fun inner => mirrors_visit h body inner

theorem mirrors_branches (h : MirrorsTrees mirroring) (scope : FrameId)
    (rest : Branches σ) :
    Mirrors mirroring id (branches scope rest) (branches scope (rest.translate translation)) := by
  cases rest with
  | none => exact mirrors_give _
  | otherwise body => exact mirrors_inside h body scope
  | orIf condition body rest =>
      refine (mirrors_visit h condition scope).bind fun value => ?_
      exact mirrors_ite (mirrors_inside h body scope) (mirrors_branches h scope rest)

theorem mirrors_rounds (h : MirrorsTrees mirroring) (condition body : Tree σ)
    (scope : FrameId) (bound : Nat) (before : Value) :
    Mirrors mirroring id (rounds condition body scope bound before)
      (rounds (condition.translate translation) (body.translate translation) scope bound
        before) := by
  induction bound generalizing before with
  | zero => exact mirrors_exhausted
  | succ bound ih =>
      refine (mirrors_visit h condition scope).bind fun value => ?_
      refine mirrors_ite ?_ (mirrors_give before)
      refine (mirrors_inside h body scope).attempt.bind fun ended => ?_
      cases ended with
      | ok value => exact ih value
      | error exit =>
          cases exit with
          | returned value site => exact mirrors_leave (.returned value site)
          | breaking site => exact mirrors_give before
          | continuing site => exact ih before

theorem mirrors_namespaceDef (h : MirrorsTrees mirroring) (site : σ) (name : String)
    (body : Tree σ) (scope : FrameId) :
    Mirrors mirroring id (namespaceDef site name body scope)
      (namespaceDef (translation.site site) name (body.translate translation) scope) := by
  refine (mirrors_act .enter).bind fun inner => ?_
  refine (mirrors_visit h body inner).bind fun _ => ?_
  exact (mirrors_act .bindDefinition).bind fun _ => mirrors_give _

/-! ## Trees -/

theorem mirrors_step (h : MirrorsTrees mirroring) (hresult : MirrorsResults mirroring)
    (bound : Nat) (tree : Tree σ) (scope : FrameId) :
    Mirrors mirroring id (step bound tree scope)
      (step bound (tree.translate translation) scope) := by
  cases tree with
  | number site value => exact mirrors_give _
  | string site value => exact mirrors_give _
  | identifier site name => exact mirrors_act .lookup
  | binary site operator left right => exact mirrors_binary h site operator left right scope
  | unary site operator operand => exact mirrors_unary h site operator operand scope
  | assign site target value => exact mirrors_assignment h target value scope
  | declare site typeName name value => exact mirrors_declaration h site typeName name value scope
  | list site items => exact (mirrors_each h scope [] items).bind fun values => mirrors_give _
  | member site object name => exact mirrors_member h site object name scope
  | index site object key => exact mirrors_element h site object key scope
  | call site callee arguments => exact mirrors_call h hresult site callee arguments scope
  | functionDef site returnType name parameters givesBody body =>
      exact mirrors_functionDef site returnType name parameters givesBody body scope
  | conditional site condition body rest =>
      exact mirrors_branches h scope (.orIf condition body rest)
  | whileLoop site condition body => exact mirrors_rounds h condition body scope bound .nil
  | namespaceDef site name body => exact mirrors_namespaceDef h site name body scope
  | returnNothing site => exact mirrors_leave _
  | returnValue site value =>
      exact (mirrors_visit h value scope).bind fun value => mirrors_leave (.returned value site)
  | breakLoop site => exact mirrors_leave _
  | continueLoop site => exact mirrors_leave _
  | block site statements => exact mirrors_last h scope .nil statements

end Script.Eval
