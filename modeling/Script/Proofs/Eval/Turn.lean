/-
# What a plan visits next

The plans of calls, of conditionals and of loops go by the values that they were given so
far: these tell whether the next tree to be visited is a condition, the callee or an
argument, or the body of a branch, of a round or of a function. The body of a branch or of
a round is visited in a frame that was made just before, and that of a function only
inside the call, which goes by the name of the function that the callee gave.
-/

import Script.Eval.Run

namespace Script

variable {σ α β : Type}

/-! ## Turns -/

/-- What a plan visits next. -/
inductive Turn (σ : Type) where
  /-- What it likes. -/
  | free
  /-- A part of the tree that is evaluated where the tree is. -/
  | part (tree : Tree σ)
  /-- The body of a branch or of a round of a loop. -/
  | body (tree : Tree σ)
  /-- The body of the function that the callee gave. -/
  | function (callee : Value)
  /-- Nothing more. -/
  | ended

/-- A body that is visited once. -/
def Turn.once (body : Tree σ) : List Value → Turn σ
  | [] => .body body
  | _ :: _ => .ended

/-- What branches visit next: conditions until one holds, and the body behind it. -/
def Branches.turn : Branches σ → List Value → Turn σ
  | .none, _ => .ended
  | .otherwise body, values => .once body values
  | .orIf condition _ _, [] => .part condition
  | .orIf _ body rest, value :: values =>
    if value.isTruthy then .once body values else rest.turn values

/-- What a call visits next when the callee has given its value: the arguments, and the
body of the function. -/
def Turn.argument (callee : Value) : List (Tree σ) → List Value → Turn σ
  | [], [] => .function callee
  | [], _ :: _ => .ended
  | argument :: _, [] => .part argument
  | _ :: arguments, _ :: values => .argument callee arguments values

/-- What the plan of a tree visits next when it was given some values. A loop begins anew
with each round. -/
def Tree.turn : Tree σ → List Value → Turn σ
  | .conditional _ condition body rest, values =>
    (Branches.orIf condition body rest).turn values
  | .whileLoop _ condition body, values => (Branches.orIf condition body .none).turn values
  | .call _ callee _, [] => .part callee
  | .call _ _ arguments, value :: values => .argument value arguments values
  | _, _ => .free

/-- Whether a tree may be visited in a turn, wherever this is. -/
def Turn.Permits (visited : Tree σ) : Turn σ → Prop
  | .part tree | .body tree => visited = tree
  | .free | .function _ => True
  | .ended => False

/-- Values for the first arguments leave the others. -/
theorem Turn.argument_append {callee : Value} {before rest : List (Tree σ)}
    {values : List Value} (h : before.length = values.length) :
    Turn.argument callee (before ++ rest) values = Turn.argument callee rest [] := by
  induction before generalizing values with
  | nil =>
      cases List.length_eq_zero_iff.mp h.symm
      rfl
  | cons tree before ih =>
      cases values with
      | nil => cases h
      | cons value values => exact ih (Nat.succ.inj h)

/-- With a value for each argument it is the turn of the function's body. -/
theorem Tree.turn_of_length_eq {site : σ} {callee : Tree σ} {called : Value}
    {arguments : List (Tree σ)} {values : List Value} (h : values.length = arguments.length) :
    (Tree.call site callee arguments).turn
      (((callee, called) :: arguments.zip values).map Prod.snd) = .function called := by
  rw [List.map_cons, List.map_snd_zip (Nat.le_of_eq h), turn, ← List.append_nil arguments,
    Turn.argument_append h.symm]
  rfl

/-! ## Plans -/

/-- What the last action of a plan did, if it made a frame or found a function. -/
inductive Latest (σ : Type) where
  | nothing
  | made (outer inner : FrameId)
  | found (id : FunctionId) (function : Function σ)

/-- What an action did that gave a result. -/
def Action.latest : Action σ β → β → Latest σ
  | .enter scope, inner => .made scope inner
  | .function? id, some function => .found id function
  | _, _ => .nothing

/-- The call inside which a plan is: what was given when it began, and what is called. -/
structure Entered (σ : Type) where
  given : List (Tree σ × Value)
  closure : Closure σ

/-- Whether it is a tree's turn to be visited in a frame, where the last action and the
call are as stated. -/
def Turn.Admits (visited : Tree σ) (scope : FrameId) (given : List (Tree σ × Value))
    (latest : Latest σ) (entered : Option (Entered σ)) : Turn σ → Prop
  | .free => True
  | .part tree => visited = tree
  | .body tree => visited = tree ∧ ∃ outer, latest = .made outer scope
  | .function _ => ∃ closure, entered = some ⟨given, closure⟩ ∧ visited = closure.body
  | .ended => False

theorem Turn.Admits.permits {turn : Turn σ} {visited : Tree σ} {scope : FrameId}
    {given : List (Tree σ × Value)} {latest : Latest σ} {entered : Option (Entered σ)}
    (h : turn.Admits visited scope given latest entered) : turn.Permits visited := by
  cases turn with
  | free | function callee => trivial
  | part tree => exact h
  | body tree => exact h.1
  | ended => exact h

/-- The body of a call is the invocation of a closure with arguments. -/
inductive Eval.Invokes (call : Call σ) (closure : Closure σ) (values : List Value) :
    {β : Type} → Eval σ β → Prop
  | intro : Invokes call closure values (invoke call.site call.name closure values)

/-- How the plan of a call expression begins a call: callee and arguments were given, the
callee gave the function by whose name the call goes, a closure was found for it, and it
is invoked with the arguments. -/
def Tree.Begins (whole : Tree σ) (given : List (Tree σ × Value)) (latest : Latest σ)
    (call : Call σ) (body : Eval σ β) (entered : Option (Entered σ)) : Prop :=
  ∀ site callee arguments, whole = .call site callee arguments →
    ∃ id closure values, given = (callee, .function call.name id) :: arguments.zip values ∧
      values.length = arguments.length ∧ latest = .found id (.closure closure) ∧
      body.Invokes call closure values ∧ entered = some ⟨given, closure⟩

/-- A plan, a part of that of a whole tree, that visits what it is the turn of and begins
calls as it should. -/
def Eval.InTurn (whole : Tree σ) :
    {α : Type} → Eval σ α → List (Tree σ × Value) → Latest σ → Option (Entered σ) → Prop
  | _, give _, _, _, _ | _, leave _, _, _, _ | _, exhausted, _, _, _ => True
  | _, perform action next, given, _, entered =>
    ∀ result, (next result).InTurn whole given (action.latest result) entered
  | _, visiting tree scope next, given, latest, entered =>
    (whole.turn (given.map Prod.snd)).Admits tree scope given latest entered ∧
      ∀ value, (next value).InTurn whole (given ++ [(tree, value)]) .nothing entered
  | _, attempting body next, given, _, entered =>
    body.InTurn whole given .nothing entered ∧
      ∀ result, (next result).InTurn whole [] .nothing entered
  | _, calling call body next, given, latest, entered =>
    (∃ inside, whole.Begins given latest call body inside ∧
      body.InTurn whole given .nothing inside) ∧
      ∀ value, (next value).InTurn whole given .nothing entered

namespace Eval

variable {whole : Tree σ} {given : List (Tree σ × Value)} {latest : Latest σ}
  {entered : Option (Entered σ)}

/-- A tree that visits what it likes and is no call has any plan. -/
theorem inTurn_of_free (hfree : ∀ values, whole.turn values = .free) (plan : Eval σ α) :
    plan.InTurn whole given latest entered := by
  induction plan generalizing given latest entered with
  | give value | leave exit | exhausted => trivial
  | perform action next ih => exact fun result => ih result
  | visiting tree scope next ih =>
      refine ⟨?_, fun value => ih value⟩
      rw [hfree]
      trivial
  | attempting body next ihBody ih => exact ⟨ihBody, fun result => ih result⟩
  | calling call body next ihBody ih =>
      refine ⟨⟨none, ?_, ihBody⟩, fun value => ih value⟩
      rintro site callee arguments rfl
      cases hfree []

/-- What goes on from a plan in any case goes on behind it. -/
theorem InTurn.bind {plan : Eval σ α} {continuation : α → Eval σ β}
    (h : plan.InTurn whole given latest entered)
    (hnext : ∀ value given latest, (continuation value).InTurn whole given latest entered) :
    (plan >>= continuation).InTurn whole given latest entered := by
  change (plan.bind continuation).InTurn whole given latest entered
  induction plan generalizing given latest with
  | give value => exact hnext value given latest
  | leave exit | exhausted => trivial
  | perform action next ih => exact fun result => ih result (h result) hnext
  | visiting tree scope next ih => exact ⟨h.1, fun value => ih value (h.2 value) hnext⟩
  | attempting body next _ ih => exact ⟨h.1, fun result => ih result (h.2 result) hnext⟩
  | calling call body next _ ih => exact ⟨h.1, fun value => ih value (h.2 value) hnext⟩

theorem inTurn_raise {fault : Fault} {site : σ} :
    (raise fault site : Eval σ α).InTurn whole given latest entered :=
  nofun

theorem inTurn_act {action : Action σ β} {continuation : β → Eval σ α}
    (hnext : ∀ result, (continuation result).InTurn whole given (action.latest result) entered) :
    (act action >>= continuation).InTurn whole given latest entered :=
  hnext

theorem inTurn_visit {tree : Tree σ} {scope : FrameId} {continuation : Value → Eval σ α}
    (hturn : (whole.turn (given.map Prod.snd)).Admits tree scope given latest entered)
    (hnext : ∀ value,
      (continuation value).InTurn whole (given ++ [(tree, value)]) .nothing entered) :
    (visit tree scope >>= continuation).InTurn whole given latest entered :=
  ⟨hturn, hnext⟩

theorem inTurn_attempt {body : Eval σ β} {continuation : Except (Exit σ) β → Eval σ α}
    (hbody : body.InTurn whole given .nothing entered)
    (hnext : ∀ ending, (continuation ending).InTurn whole [] .nothing entered) :
    (attempt body >>= continuation).InTurn whole given latest entered :=
  ⟨hbody, hnext⟩

/-! ## Calls -/

theorem inTurn_native {native : Native} {site : σ} {argument : Value} :
    (native.call site argument).InTurn whole given latest entered := by
  cases native with
  | print => exact fun _ _ => trivial
  | println => exact fun _ _ _ => trivial
  | str => exact fun _ => trivial
  | len =>
      intro length
      cases length with
      | some length => trivial
      | none => exact inTurn_raise

/-- Every argument is visited in its turn, and none is left out. -/
theorem inTurn_each {site : σ} {callee : Tree σ} {called : Value} {arguments : List (Tree σ)}
    {scope : FrameId} {continuation : List Value → Eval σ α}
    (hnext : ∀ values, values.length = arguments.length →
      (continuation values).InTurn (.call site callee arguments)
        ((callee, called) :: arguments.zip values) .nothing none)
    {rest : List (Tree σ)} : ∀ (done : List (Tree σ)) (before : List Value),
      arguments = done ++ rest → done.length = before.length →
      (each scope before rest >>= continuation).InTurn (.call site callee arguments)
        ((callee, called) :: done.zip before.reverse) .nothing none := by
  induction rest with
  | nil =>
      intro done before hall hlength
      cases hall.trans (List.append_nil done)
      exact hnext before.reverse (by rw [List.length_reverse, hlength])
  | cons tree rest ih =>
      intro done before hall hlength
      have hreverse : done.length = before.reverse.length := by
        rw [List.length_reverse, hlength]
      refine ⟨?_, fun value => ?_⟩
      · have hturn : (Tree.call site callee arguments).turn
            (((callee, called) :: done.zip before.reverse).map Prod.snd) = .part tree := by
          rw [List.map_cons, List.map_snd_zip (Nat.le_of_eq hreverse.symm), hall]
          exact Turn.argument_append hreverse
        rw [hturn]
        rfl
      · have hgiven : (callee, called) :: done.zip before.reverse ++ [(tree, value)] =
            (callee, called) :: (done ++ [tree]).zip (value :: before).reverse := by
          rw [List.reverse_cons, List.zip_append hreverse]
          rfl
        rw [hgiven]
        refine ih (done ++ [tree]) (value :: before) ?_ ?_
        · rw [hall, List.append_assoc, List.singleton_append]
        · rw [List.length_append, List.length_singleton, hlength, List.length_cons]

theorem inTurn_bindParameters {site : σ} {scope : FrameId} {rest : Eval σ α}
    (hrest : ∀ latest, rest.InTurn whole given latest entered) (parameters : List TypedName)
    (arguments : List Value) :
    (bindParameters site scope parameters arguments >>= fun _ => rest).InTurn whole given latest
      entered := by
  induction parameters generalizing arguments latest with
  | nil => exact hrest latest
  | cons parameter parameters ih =>
      cases arguments with
      | nil => exact hrest latest
      | cons argument arguments => exact fun _ => ih arguments

theorem inTurn_result {closure : Closure σ} {scope : FrameId} {called : Value}
    (hturn : whole.turn (given.map Prod.snd) = .function called) :
    (result closure scope).InTurn whole given latest (some ⟨given, closure⟩) := by
  refine inTurn_attempt ⟨?_, fun _ => trivial⟩ fun ending => ?_
  · rw [hturn]
    exact ⟨closure, rfl, rfl⟩
  · cases ending with
    | ok value => trivial
    | error exit =>
        cases exit with
        | returned value site => trivial
        | breaking site | continuing site => exact inTurn_raise

/-- An invocation visits the closure's body, whose turn it is. -/
theorem inTurn_invoke {site : σ} {name : String} {closure : Closure σ} {values : List Value}
    {called : Value} (hturn : whole.turn (given.map Prod.snd) = .function called) :
    (invoke site name closure values).InTurn whole given latest (some ⟨given, closure⟩) := by
  refine inTurn_act fun inner => ?_
  refine inTurn_bindParameters (fun latest => ?_) closure.parameters values
  refine (inTurn_result hturn).bind fun value _ _ => ?_
  split
  · trivial
  · exact inTurn_raise

/-- What is called goes by its name, and is invoked if it is a closure. -/
theorem inTurn_callFunction {site : σ} {callee : Tree σ} {arguments : List (Tree σ)}
    {name : String} {id : FunctionId} {function : Function σ} {values : List Value}
    (hlength : values.length = arguments.length) :
    (callFunction site name function values).InTurn (.call site callee arguments)
      ((callee, .function name id) :: arguments.zip values) (.found id function) none := by
  cases function with
  | native native => exact inTurn_native
  | closure closure =>
      refine ⟨⟨some ⟨(callee, .function name id) :: arguments.zip values, closure⟩, ?_, ?_⟩,
        fun _ => trivial⟩
      · rintro _ _ _ ⟨⟩
        exact ⟨id, closure, values, rfl, hlength, rfl, .intro, rfl⟩
      · exact inTurn_invoke (Tree.turn_of_length_eq hlength)

theorem inTurn_call {site : σ} {callee : Tree σ} {arguments : List (Tree σ)} {scope : FrameId} :
    (call site callee arguments scope).InTurn (.call site callee arguments) [] .nothing none := by
  refine inTurn_visit rfl fun called => ?_
  refine inTurn_each (fun values hlength => ?_) [] [] rfl rfl
  cases called with
  | function name id =>
      refine inTurn_act fun found => ?_
      cases found with
      | none => exact inTurn_raise
      | some function =>
          dsimp only
          split
          · exact inTurn_callFunction hlength
          · exact inTurn_raise
  | _ => exact inTurn_raise

/-! ## Branches and loops -/

/-- A body whose turn it is gets a frame. -/
theorem inTurn_inside {body : Tree σ} {scope : FrameId}
    (hturn : whole.turn (given.map Prod.snd) = .body body) :
    (inside body scope).InTurn whole given latest entered := by
  refine fun inner => ⟨?_, fun _ => trivial⟩
  rw [hturn]
  exact ⟨rfl, scope, rfl⟩

theorem inTurn_branches {branches : Branches σ} {scope : FrameId}
    (hturn : ∀ values, whole.turn (given.map Prod.snd ++ values) = branches.turn values) :
    (Eval.branches scope branches).InTurn whole given latest entered := by
  induction branches using Eval.branches.induct generalizing given latest with
  | case1 => trivial
  | case2 body =>
      have hbody := hturn []
      rw [List.append_nil] at hbody
      exact inTurn_inside hbody
  | case3 condition body rest ih =>
      refine inTurn_visit ?_ fun value => ?_
      · have hcondition := hturn []
        rw [List.append_nil] at hcondition
        rw [hcondition]
        rfl
      · have hbehind : ∀ values,
            whole.turn ((given ++ [(condition, value)]).map Prod.snd ++ values) =
              (Branches.orIf condition body rest).turn (value :: values) := by
          intro values
          rw [← hturn, List.map_append, List.append_assoc]
          rfl
        split
        · next htruthy =>
          have hbody := hbehind []
          rw [List.append_nil, Branches.turn, if_pos htruthy] at hbody
          exact inTurn_inside hbody
        · next hfails =>
          refine ih fun values => ?_
          rw [hbehind, Branches.turn, if_neg hfails]

theorem inTurn_rounds {site : σ} {condition body : Tree σ} {scope : FrameId} (bound : Nat)
    (before : Value) (latest : Latest σ) :
    (rounds condition body scope bound before).InTurn (.whileLoop site condition body) [] latest
      entered := by
  induction bound generalizing before latest with
  | zero => trivial
  | succ bound ih =>
      refine inTurn_visit rfl fun value => ?_
      split
      · next htruthy =>
        refine inTurn_attempt (inTurn_inside ?_) fun ending => ?_
        · exact if_pos htruthy
        · cases ending with
          | ok value => exact ih value .nothing
          | error exit =>
              cases exit with
              | returned value site => trivial
              | breaking site => trivial
              | continuing site => exact ih before .nothing
      · trivial

/-! ## All trees -/

theorem inTurn_step {tree : Tree σ} (bound : Nat) (scope : FrameId) :
    (step bound tree scope).InTurn tree [] .nothing none := by
  cases tree with
  | call site callee arguments => exact inTurn_call
  | conditional site condition body rest => exact inTurn_branches fun _ => rfl
  | whileLoop site condition body => exact inTurn_rounds bound .nil .nothing
  | _ => exact inTurn_of_free (fun _ => rfl) _

end Eval

end Script
