/-
# What plans may ask for

The plan of a tree visits only parts of the tree, makes only functions whose bodies are
parts of it, and enters calls only with the bodies of functions that it was given. It
visits and binds names in only two kinds of frames: the one in which the tree is
evaluated, which is its home, and one that it has just made. In the latter it declares
what it already had, visits one tree, and is home again.
-/

import Script.Eval.Run
import Script.Proofs.Syntax.Parts

namespace Script

variable {σ α β : Type}

/-- What bounds a plan: the trees that it may visit, the bodies of the functions that it
may make and call, and whether it may be cut off. -/
structure Bounds (σ : Type) where
  visits : Tree σ → Prop
  bodies : Tree σ → Prop
  endless : Prop

/-- The bounds of what happens inside a call. -/
def Bounds.called (bounds : Bounds σ) : Bounds σ := { bounds with visits := bounds.bodies }

/-- Bounds with room for the plan of a tree: for its parts and for the body of what it
defines, and a loop may be cut off. -/
structure Bounds.Admits (bounds : Bounds σ) (tree : Tree σ) : Prop where
  parts : ∀ part ∈ tree.parts, bounds.visits part
  bodies : ∀ body, tree.definedBody? = some body → bounds.bodies body
  endless : tree.isLoop = true → bounds.endless

/-- The bounds that ask for nothing. -/
def Bounds.free : Bounds σ := ⟨fun _ => True, fun _ => True, True⟩

theorem Bounds.free_admits (tree : Tree σ) : Bounds.free.Admits tree :=
  ⟨fun _ _ => trivial, fun _ _ => trivial, fun _ => trivial⟩

/-- A frame that a plan has just made, and the values that it declares there before it
does anything else. -/
structure Opened where
  frame : FrameId
  pending : List Value

/-- The frame in which a plan goes on: one that it has just made, or its home. -/
def Opened.scope (home : FrameId) : Option Opened → FrameId
  | none => home
  | some opened => opened.frame

/-- An action that a plan may ask for, and goes on from as stated. -/
def Action.Within (bounds : Bounds σ) (home : FrameId) :
    {β : Type} → Action σ β → Option Opened → (β → Option Opened → Prop) → Prop
  | _, .enter _, opened, rest =>
    opened = none ∧ ∃ values, ∀ inner, rest inner (some ⟨inner, values⟩)
  | _, .declare _ scope _ _ _, none, rest => scope = home ∧ rest () none
  | _, .declare _ scope _ _ value, some opened, rest =>
    scope = opened.frame ∧ ∃ others, opened.pending = value :: others ∧
      rest () (some ⟨opened.frame, others⟩)
  | _, .bindDefinition _ scope _ _, opened, rest => opened = none ∧ scope = home ∧ rest () none
  | _, .pushFunction (.closure closure), opened, rest =>
    opened = none ∧ bounds.bodies closure.body ∧ ∀ id, rest id none
  | _, .pushFunction (.native _), _, _ => False
  | _, .function? _, opened, rest =>
    opened = none ∧ ∀ function,
      (∀ closure, function = some (.closure closure) → bounds.bodies closure.body) →
      rest function none
  | _, _, opened, rest => opened = none ∧ ∀ result, rest result none

/-- A plan that stays within bounds, where its home is a frame and it may have just made
another. -/
def Eval.Within (home : FrameId) :
    {α : Type} → Eval σ α → Bounds σ → Option Opened → Prop
  | _, give _, _, opened | _, leave _, _, opened => opened = none
  | _, exhausted, bounds, opened => opened = none ∧ bounds.endless
  | _, perform action next, bounds, opened =>
    action.Within bounds home opened fun result opened => (next result).Within home bounds opened
  | _, visiting tree scope next, bounds, opened =>
    bounds.visits tree ∧ scope = Opened.scope home opened ∧
      (∀ inner, opened = some inner → inner.pending = []) ∧
      ∀ value, (next value).Within home bounds none
  | _, attempting body next, bounds, opened =>
    body.Within home bounds opened ∧ ∀ result, (next result).Within home bounds none
  | _, calling _ body next, bounds, opened =>
    opened = none ∧ body.Within home bounds.called none ∧
      ∀ value, (next value).Within home bounds none

theorem Action.Within.imp {bounds : Bounds σ} {home : FrameId} {action : Action σ β}
    {opened : Option Opened} {rest rest' : β → Option Opened → Prop}
    (h : action.Within bounds home opened rest)
    (himp : ∀ result opened, rest result opened → rest' result opened) :
    action.Within bounds home opened rest' := by
  cases action with
  | enter scope =>
      obtain ⟨hopened, values, hrest⟩ := h
      exact ⟨hopened, values, fun inner => himp _ _ (hrest inner)⟩
  | declare site scope name declared value =>
      cases opened with
      | none => exact ⟨h.1, himp _ _ h.2⟩
      | some opened =>
          obtain ⟨hscope, others, hpending, hrest⟩ := h
          exact ⟨hscope, others, hpending, himp _ _ hrest⟩
  | bindDefinition site scope name value => exact ⟨h.1, h.2.1, himp _ _ h.2.2⟩
  | pushFunction function =>
      cases function with
      | native native => exact h
      | closure closure => exact ⟨h.1, h.2.1, fun id => himp _ _ (h.2.2 id)⟩
  | function? id =>
      exact ⟨h.1, fun function hbody => himp _ _ (h.2 function hbody)⟩
  | _ => exact ⟨h.1, fun result => himp _ _ (h.2 result)⟩

namespace Eval

variable {bounds : Bounds σ} {home : FrameId} {opened : Option Opened}

/-- A plan within bounds and what goes on from home are within bounds in a row. -/
theorem Within.bind {plan : Eval σ α} {continuation : α → Eval σ β}
    (h : plan.Within home bounds opened)
    (hnext : ∀ value, (continuation value).Within home bounds none) :
    (plan >>= continuation).Within home bounds opened := by
  change (plan.bind continuation).Within home bounds opened
  induction plan generalizing opened with
  | give value =>
      cases h
      exact hnext value
  | leave exit => exact h
  | exhausted => exact h
  | perform action next ih =>
      exact Action.Within.imp h fun result opened hrest => ih result hrest hnext
  | visiting tree scope next ih =>
      obtain ⟨hvisits, hscope, hpending, hrest⟩ := h
      exact ⟨hvisits, hscope, hpending, fun value => ih value (hrest value) hnext⟩
  | attempting body next _ ih =>
      exact ⟨h.1, fun result => ih result (h.2 result) hnext⟩
  | calling call body next _ ih =>
      exact ⟨h.1, h.2.1, fun value => ih value (h.2.2 value) hnext⟩

/-! ## Single requests -/

theorem within_visit {tree : Tree σ} (h : bounds.visits tree) :
    (visit tree home).Within home bounds none :=
  ⟨h, rfl, nofun, fun _ => rfl⟩

/-- The one tree that is visited in a frame just made. -/
theorem within_visit_opened {tree : Tree σ} {inner : FrameId} (h : bounds.visits tree) :
    (visit tree inner).Within home bounds (some ⟨inner, []⟩) := by
  refine ⟨h, rfl, ?_, fun _ => rfl⟩
  rintro _ ⟨⟩
  rfl

theorem within_raise {fault : Fault} {site : σ} :
    (raise fault site : Eval σ α).Within home bounds none :=
  ⟨rfl, nofun⟩

theorem within_operation {site : σ} {result : Except OperationError Value} :
    (operation site result).Within home bounds none := by
  cases result with
  | ok value => rfl
  | error error => exact within_raise

theorem within_resolveType {site : σ} {name : String} :
    (resolveType site name).Within home bounds none := by
  rw [resolveType]
  split
  · rfl
  · exact within_raise

theorem within_resolveParameters {parameters : List (Parameter σ)} :
    (resolveParameters parameters).Within home bounds none := by
  induction parameters with
  | nil => rfl
  | cons parameter rest ih =>
      refine within_resolveType.bind fun declared => ?_
      exact ih.bind fun _ => rfl

/-- A function that was given has a body within the bounds. -/
theorem within_function? {id : FunctionId} {continuation : Option (Function σ) → Eval σ α}
    (h : ∀ function,
      (∀ closure, function = some (.closure closure) → bounds.bodies closure.body) →
      (continuation function).Within home bounds none) :
    (act (.function? id) >>= continuation).Within home bounds none :=
  ⟨rfl, h⟩

/-! ## Trees in a row -/

theorem within_each {trees : List (Tree σ)} (h : ∀ tree ∈ trees, bounds.visits tree)
    (before : List Value) : (each home before trees).Within home bounds none := by
  induction trees generalizing before with
  | nil => rfl
  | cons tree rest ih =>
      rw [List.forall_mem_cons] at h
      exact (within_visit h.1).bind fun value => ih h.2 (value :: before)

theorem within_last {trees : List (Tree σ)} (h : ∀ tree ∈ trees, bounds.visits tree)
    (before : Value) : (last home before trees).Within home bounds none := by
  induction trees generalizing before with
  | nil => rfl
  | cons tree rest ih =>
      rw [List.forall_mem_cons] at h
      exact (within_visit h.1).bind fun value => ih h.2 value

/-! ## Operators and places -/

theorem within_binary {site : σ} {operator : BinaryOperator} {left right : Tree σ}
    (hleft : bounds.visits left) (hright : bounds.visits right) :
    (binary site operator left right home).Within home bounds none := by
  refine (within_visit hleft).bind fun leftValue => ?_
  split
  · rfl
  · rfl
  · exact (within_visit hright).bind fun _ => rfl
  · exact (within_visit hright).bind fun _ => rfl
  · exact (within_visit hright).bind fun _ => ⟨rfl, fun _ => rfl⟩

theorem within_unary {site : σ} {operator : UnaryOperator} {operand : Tree σ}
    (h : bounds.visits operand) : (unary site operator operand home).Within home bounds none :=
  (within_visit h).bind fun _ => within_operation

theorem within_assignMember {site : σ} {object key value : Value} :
    (assignMember site object key value).Within home bounds none := by
  rw [assignMember.eq_def]
  split
  · exact ⟨rfl, fun _ => rfl⟩
  · exact within_raise
  · rfl

theorem within_assignment {target value : Tree σ} (hvalue : bounds.visits value)
    (hplace : ∀ part ∈ target.placeParts, bounds.visits part) :
    (assignment target value home).Within home bounds none := by
  refine (within_visit hvalue).bind fun assigned => ?_
  cases target with
  | identifier site name => exact ⟨rfl, fun _ => rfl⟩
  | member site object name =>
      have hobject : bounds.visits object := hplace object (.head _)
      refine (within_visit hobject).bind fun space => ?_
      exact within_assignMember.bind fun _ => rfl
  | index site object key =>
      have hobject : bounds.visits object := hplace object (.head _)
      have hkey : bounds.visits key := hplace key (.tail _ (.head _))
      refine (within_visit hobject).bind fun space => ?_
      refine (within_visit hkey).bind fun place => ?_
      exact within_assignMember.bind fun _ => rfl
  | _ => exact ⟨rfl, nofun⟩

theorem within_declaration {site : σ} {typeName name : String} {value : Tree σ}
    (h : bounds.visits value) :
    (declaration site typeName name value home).Within home bounds none := by
  refine within_resolveType.bind fun declared => ?_
  exact (within_visit h).bind fun _ => ⟨rfl, rfl⟩

theorem within_member {site : σ} {object : Tree σ} {name : String} (h : bounds.visits object) :
    (member site object name home).Within home bounds none := by
  refine (within_visit h).bind fun value => ?_
  split
  · exact ⟨rfl, fun _ => rfl⟩
  · exact within_raise

theorem within_element {site : σ} {object key : Tree σ} (hobject : bounds.visits object)
    (hkey : bounds.visits key) : (element site object key home).Within home bounds none := by
  refine (within_visit hobject).bind fun value => ?_
  exact (within_visit hkey).bind fun place => ⟨rfl, fun _ => rfl⟩

/-! ## Calls -/

theorem within_native {native : Native} {site : σ} {argument : Value} :
    (native.call site argument).Within home bounds none := by
  cases native with
  | print => exact ⟨rfl, fun _ => ⟨rfl, fun _ => rfl⟩⟩
  | println => exact ⟨rfl, fun _ => ⟨rfl, fun _ => ⟨rfl, fun _ => rfl⟩⟩⟩
  | len =>
      refine ⟨rfl, fun length => ?_⟩
      cases length with
      | some length => rfl
      | none => exact within_raise
  | str => exact ⟨rfl, fun _ => rfl⟩

/-- The arguments are what is declared in the frame of a call. -/
theorem within_bindParameters {site : σ} {inner : FrameId} {rest : Eval σ α}
    (hrest : rest.Within home bounds (some ⟨inner, []⟩)) (parameters : List TypedName)
    (arguments : List Value) :
    (bindParameters site inner parameters arguments >>= fun _ => rest).Within home bounds
      (some ⟨inner, arguments.take parameters.length⟩) := by
  induction parameters generalizing arguments with
  | nil => exact hrest
  | cons parameter parameters ih =>
      cases arguments with
      | nil => exact hrest
      | cons argument arguments => exact ⟨rfl, _, rfl, ih arguments⟩

theorem within_result {closure : Closure σ} {inner : FrameId}
    (hbody : bounds.visits closure.body) :
    (result closure inner).Within home bounds (some ⟨inner, []⟩) := by
  refine ⟨within_visit_opened hbody, ?_⟩
  intro ending
  cases ending with
  | ok value => rfl
  | error exit =>
      cases exit with
      | returned value site => rfl
      | breaking site | continuing site => exact within_raise

theorem within_invoke {site : σ} {name : String} {closure : Closure σ} {arguments : List Value}
    (hbody : bounds.visits closure.body) :
    (invoke site name closure arguments).Within home bounds none := by
  refine ⟨rfl, arguments.take closure.parameters.length, fun inner => ?_⟩
  refine within_bindParameters ?_ closure.parameters arguments
  refine (within_result hbody).bind fun value => ?_
  split
  · rfl
  · exact within_raise

theorem within_callFunction {site : σ} {name : String} {function : Function σ}
    {arguments : List Value}
    (hbody : ∀ closure, function = .closure closure → bounds.bodies closure.body) :
    (callFunction site name function arguments).Within home bounds none := by
  cases function with
  | native native => exact within_native
  | closure closure => exact ⟨rfl, within_invoke (hbody closure rfl), fun _ => rfl⟩

theorem within_call {site : σ} {callee : Tree σ} {arguments : List (Tree σ)}
    (hcallee : bounds.visits callee) (harguments : ∀ tree ∈ arguments, bounds.visits tree) :
    (call site callee arguments home).Within home bounds none := by
  refine (within_visit hcallee).bind fun called => ?_
  refine (within_each harguments []).bind fun values => ?_
  split
  · refine within_function? fun function hbody => ?_
    split
    · exact within_raise
    · next present =>
      split
      · exact within_callFunction fun closure hclosure =>
          hbody closure (congrArg some hclosure)
      · exact within_raise
  · exact within_raise

/-! ## Definitions -/

theorem within_functionDef {site : σ} {returnType name : String}
    {parameters : List (Parameter σ)} {givesBody : Bool} {body : Tree σ}
    (hbody : bounds.bodies body) :
    (functionDef site returnType name parameters givesBody body home).Within home bounds none := by
  refine within_resolveType.bind fun declared => ?_
  refine within_resolveParameters.bind fun typed => ?_
  exact ⟨rfl, hbody, fun id => ⟨rfl, rfl, rfl⟩⟩

theorem within_namespaceDef {site : σ} {name : String} {body : Tree σ}
    (hbody : bounds.visits body) :
    (namespaceDef site name body home).Within home bounds none := by
  refine ⟨rfl, [], fun inner => ?_⟩
  exact (within_visit_opened hbody).bind fun _ => ⟨rfl, rfl, rfl⟩

/-! ## Branches and loops -/

theorem within_inside {body : Tree σ} {scope : FrameId} (hbody : bounds.visits body) :
    (inside body scope).Within home bounds none :=
  ⟨rfl, [], fun _ => within_visit_opened hbody⟩

theorem within_branches {branches : Branches σ} (h : ∀ part ∈ branches.parts, bounds.visits part) :
    (Eval.branches home branches).Within home bounds none := by
  induction branches using Eval.branches.induct with
  | case1 => rfl
  | case2 body => exact within_inside (h body (.head _))
  | case3 condition body rest ih =>
      rw [Branches.parts, List.forall_mem_cons, List.forall_mem_cons] at h
      refine (within_visit h.1).bind fun value => ?_
      split
      · exact within_inside h.2.1
      · exact ih h.2.2

theorem within_rounds {condition body : Tree σ} (hcondition : bounds.visits condition)
    (hbody : bounds.visits body) (hendless : bounds.endless) (bound : Nat) (before : Value) :
    (rounds condition body home bound before).Within home bounds none := by
  induction bound generalizing before with
  | zero => exact ⟨rfl, hendless⟩
  | succ bound ih =>
      refine (within_visit hcondition).bind fun value => ?_
      split
      · refine ⟨within_inside hbody, fun ending => ?_⟩
        cases ending with
        | ok value => exact ih value
        | error exit =>
            cases exit with
            | returned value site => rfl
            | breaking site => rfl
            | continuing site => exact ih before
      · rfl

/-! ## All trees -/

/-- The plan of a tree stays within all bounds that have room for it. -/
theorem within_step {tree : Tree σ} (h : bounds.Admits tree) (bound : Nat) :
    (step bound tree home).Within home bounds none := by
  obtain ⟨hparts, hbodies, hendless⟩ := h
  cases tree with
  | number site value | string site value => rfl
  | identifier site name => exact ⟨rfl, fun _ => rfl⟩
  | binary site operator left right =>
      exact within_binary (hparts left (.head _)) (hparts right (.tail _ (.head _)))
  | unary site operator operand => exact within_unary (hparts operand (.head _))
  | assign site target value =>
      rw [Tree.parts, List.forall_mem_cons] at hparts
      exact within_assignment hparts.1 hparts.2
  | declare site typeName name value => exact within_declaration (hparts value (.head _))
  | list site items => exact (within_each hparts []).bind fun _ => rfl
  | member site object name => exact within_member (hparts object (.head _))
  | index site object key =>
      exact within_element (hparts object (.head _)) (hparts key (.tail _ (.head _)))
  | call site callee arguments =>
      rw [Tree.parts, List.forall_mem_cons] at hparts
      exact within_call hparts.1 hparts.2
  | functionDef site returnType name parameters givesBody body =>
      exact within_functionDef (hbodies body rfl)
  | conditional site condition body rest => exact within_branches hparts
  | whileLoop site condition body =>
      exact within_rounds (hparts condition (.head _)) (hparts body (.tail _ (.head _)))
        (hendless rfl) bound .nil
  | namespaceDef site name body => exact within_namespaceDef (hparts body (.head _))
  | returnNothing site | breakLoop site | continueLoop site => rfl
  | returnValue site value => exact (within_visit (hparts value (.head _))).bind fun _ => rfl
  | block site statements => exact within_last hparts .nil

end Eval

end Script
