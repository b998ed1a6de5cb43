/-
# The plans of trees are safe

The plan of every tree that obeys the rules of a discipline is safe for it: a plan asks
for actions in the frame it was given, or in one that it made inside it, and with
values that it got. So the evaluation of such a tree keeps the discipline, however it
ends.
-/

import Script.Proofs.Eval.Safe

namespace Script.Eval

variable {σ α : Type} {discipline : Discipline σ} {whole : Tree σ} {enclosure : Enclosure}
  {store : Store σ} {onExit : Exit σ → Store σ → Prop}

/-- A plan that may stand where a tree is enclosed, and gives a value that keeps the
discipline. -/
abbrev SafeIn (discipline : Discipline σ) (whole : Tree σ) (enclosure : Enclosure)
    (plan : Eval σ Value) (store : Store σ) : Prop :=
  plan.Safe discipline whole (discipline.Exits enclosure) store
    fun value after => discipline.value after value

/-! ## Single requests -/

theorem safe_visit {tree : Tree σ} {scope : FrameId}
    (hobeys : tree.Obeys discipline.rules enclosure) (hscope : discipline.scope store scope) :
    SafeIn discipline whole enclosure (visit tree scope) store :=
  ⟨hscope, enclosure, hobeys, fun _ _ _ _ hexit => hexit, fun _ _ _ _ hvalue => hvalue⟩

theorem safe_act {action : Action σ α} (hallows : discipline.Allows store action) :
    (act action).Safe discipline whole onExit store
      fun result after => discipline.Yields after action result :=
  ⟨hallows, fun _ _ _ _ hyields => hyields⟩

theorem safe_raise {fault : Fault} {site : σ} {onValue : α → Store σ → Prop}
    (hsite : discipline.rules.site site)
    (hfault : discipline.rules.exits → fault.isStray = false) :
    (raise fault site : Eval σ α).Safe discipline whole onExit store onValue :=
  ⟨⟨hsite, hfault⟩, fun result => nomatch result⟩

theorem safe_operation {site : σ} {result : Except OperationError Value}
    (hsite : discipline.rules.site site)
    (hresult : ∀ {value}, result = .ok value → discipline.value store value) :
    (operation site result).Safe discipline whole onExit store
      fun value after => discipline.value after value := by
  cases result with
  | ok value => exact hresult rfl
  | error error => exact safe_raise hsite fun _ => rfl

theorem safe_resolveType {site : σ} {name : String} (hsite : discipline.rules.site site) :
    (resolveType site name).Safe discipline whole onExit store fun _ _ => True := by
  rw [resolveType]
  split
  · trivial
  · exact safe_raise hsite fun _ => rfl

theorem safe_resolveParameters (hkept : discipline.Kept store) {parameters : List (Parameter σ)}
    (hsites : ∀ parameter ∈ parameters, discipline.rules.site parameter.site) :
    (resolveParameters parameters).Safe discipline whole onExit store fun _ _ => True := by
  induction parameters generalizing store with
  | nil => trivial
  | cons parameter rest ih =>
      rw [List.forall_mem_cons] at hsites
      refine .bind hkept (safe_resolveType hsites.1) ?_
      intro declared after hafter _ _
      refine .bind hafter (ih hafter hsites.2) ?_
      intro others later _ _ _
      trivial

/-! ## Trees in a row -/

theorem safe_each (hkept : discipline.Kept store) {scope : FrameId}
    (hscope : discipline.scope store scope) {trees : List (Tree σ)} {before : List Value}
    (hobey : Tree.ObeyEach discipline.rules enclosure trees)
    (hbefore : ∀ value ∈ before, discipline.value store value) :
    (each scope before trees).Safe discipline whole (discipline.Exits enclosure) store
      fun values after => ∀ value ∈ values, discipline.value after value := by
  induction trees generalizing store before with
  | nil =>
      intro value hvalue
      exact hbefore value (List.mem_reverse.mp hvalue)
  | cons tree rest ih =>
      refine .bind hkept (safe_visit hobey.1 hscope) ?_
      intro first after hafter hgrows hfirst
      refine ih hafter (discipline.scope_mono hgrows hscope) hobey.2 ?_
      rw [List.forall_mem_cons]
      exact ⟨hfirst, fun value hvalue => Discipline.value_mono hgrows (hbefore value hvalue)⟩

theorem safe_last (hkept : discipline.Kept store) {scope : FrameId}
    (hscope : discipline.scope store scope) {trees : List (Tree σ)} {before : Value}
    (hobey : Tree.ObeyEach discipline.rules enclosure trees)
    (hbefore : discipline.value store before) :
    SafeIn discipline whole enclosure (last scope before trees) store := by
  induction trees generalizing store before with
  | nil => exact hbefore
  | cons tree rest ih =>
      refine .bind hkept (safe_visit hobey.1 hscope) ?_
      intro value after hafter hgrows hvalue
      exact ih hafter (discipline.scope_mono hgrows hscope) hobey.2 hvalue

/-! ## Operators and places -/

theorem safe_binary (hkept : discipline.Kept store) {scope : FrameId}
    (hscope : discipline.scope store scope) {site : σ} {operator : BinaryOperator}
    {left right : Tree σ} (hsite : discipline.rules.site site)
    (hleft : left.Obeys discipline.rules enclosure)
    (hright : right.Obeys discipline.rules enclosure) :
    SafeIn discipline whole enclosure (binary site operator left right scope) store := by
  refine .bind hkept (safe_visit hleft hscope) ?_
  intro leftValue after hafter hgrows hleftValue
  have hafterScope := discipline.scope_mono hgrows hscope
  have hvisit : SafeIn discipline whole enclosure (visit right scope) after :=
    safe_visit hright hafterScope
  split
  · trivial
  · trivial
  · refine .bind hafter hvisit ?_
    intro _ _ _ _ _
    trivial
  · refine .bind hafter hvisit ?_
    intro _ _ _ _ _
    trivial
  · refine .bind hafter hvisit ?_
    intro rightValue later _ hgrows' hrightValue
    exact safe_act ⟨hsite, Discipline.value_mono hgrows' hleftValue, hrightValue⟩

theorem safe_unary (hkept : discipline.Kept store) {scope : FrameId}
    (hscope : discipline.scope store scope) {site : σ} {operator : UnaryOperator}
    {operand : Tree σ} (hsite : discipline.rules.site site)
    (hoperand : operand.Obeys discipline.rules enclosure) :
    SafeIn discipline whole enclosure (unary site operator operand scope) store := by
  refine .bind hkept (safe_visit hoperand hscope) ?_
  intro value after _ _ _
  exact safe_operation hsite Value.refersTo_of_applyUnary

theorem safe_assignMember {site : σ} {object key value : Value}
    (hsite : discipline.rules.site site) (hobject : discipline.value store object)
    (hvalue : discipline.value store value) :
    (assignMember site object key value).Safe discipline whole onExit store fun _ _ => True := by
  rw [assignMember.eq_def]
  split
  · exact ⟨⟨hsite, hobject, hvalue⟩, fun _ _ _ _ _ => trivial⟩
  · exact safe_raise hsite fun _ => rfl
  · trivial

theorem safe_assignment (hkept : discipline.Kept store) {scope : FrameId}
    (hscope : discipline.scope store scope) {target value : Tree σ}
    (htarget : target.Obeys discipline.rules enclosure)
    (hvalue : value.Obeys discipline.rules enclosure) :
    SafeIn discipline whole enclosure (assignment target value scope) store := by
  refine .bind hkept (safe_visit hvalue hscope) ?_
  intro assigned after hafter hgrows hassigned
  have hafterScope := discipline.scope_mono hgrows hscope
  have hkeep (later : Store σ) (hgrows' : after.Grows later) : discipline.value later assigned :=
    Discipline.value_mono hgrows' hassigned
  cases target with
  | identifier site name =>
      refine .bind hafter (safe_act ⟨htarget, hafterScope, hassigned⟩) ?_
      intro _ later _ hgrows' _
      exact hkeep later hgrows'
  | member site object name =>
      refine .bind hafter (safe_visit htarget.2 hafterScope) ?_
      intro space later hlater hgrows' hspace
      refine .bind hlater (safe_assignMember htarget.1 hspace (hkeep later hgrows')) ?_
      intro _ last _ hgrows'' _
      exact hkeep last (hgrows'.trans hgrows'')
  | index site object key =>
      refine .bind hafter (safe_visit htarget.2.1 hafterScope) ?_
      intro space later hlater hgrows' hspace
      refine .bind hlater (safe_visit htarget.2.2 (discipline.scope_mono hgrows' hafterScope)) ?_
      intro place later' hlater' hgrows'' hplace
      have hspace' := Discipline.value_mono hgrows'' hspace
      have hassigned' := hkeep later' (hgrows'.trans hgrows'')
      refine .bind hlater' (safe_assignMember htarget.1 hspace' hassigned') ?_
      intro _ last _ hgrows''' _
      exact hkeep last ((hgrows'.trans hgrows'').trans hgrows''')
  | _ => exact ⟨⟨htarget.site, fun _ => rfl⟩, fun result => nomatch result⟩

theorem safe_declaration (hkept : discipline.Kept store) {scope : FrameId}
    (hscope : discipline.scope store scope) {site : σ} {typeName name : String} {value : Tree σ}
    (hsite : discipline.rules.site site) (hvalue : value.Obeys discipline.rules enclosure) :
    SafeIn discipline whole enclosure (declaration site typeName name value scope) store := by
  refine .bind hkept (safe_resolveType hsite) ?_
  intro declared after hafter hgrows _
  have hafterScope := discipline.scope_mono hgrows hscope
  refine .bind hafter (safe_visit hvalue hafterScope) ?_
  intro bound later hlater hgrows' hbound
  have hlaterScope := discipline.scope_mono hgrows' hafterScope
  refine .bind hlater (safe_act ⟨hsite, hlaterScope, hbound⟩) ?_
  intro _ last _ hgrows'' _
  exact Discipline.value_mono hgrows'' hbound

theorem safe_member (hkept : discipline.Kept store) {scope : FrameId}
    (hscope : discipline.scope store scope) {site : σ} {object : Tree σ} {name : String}
    (hsite : discipline.rules.site site) (hobject : object.Obeys discipline.rules enclosure) :
    SafeIn discipline whole enclosure (member site object name scope) store := by
  refine .bind hkept (safe_visit hobject hscope) ?_
  intro value after _ _ hvalue
  split
  · exact safe_act hvalue
  · exact safe_raise hsite fun _ => rfl

theorem safe_element (hkept : discipline.Kept store) {scope : FrameId}
    (hscope : discipline.scope store scope) {site : σ} {object key : Tree σ}
    (hsite : discipline.rules.site site) (hobject : object.Obeys discipline.rules enclosure)
    (hkey : key.Obeys discipline.rules enclosure) :
    SafeIn discipline whole enclosure (element site object key scope) store := by
  refine .bind hkept (safe_visit hobject hscope) ?_
  intro value after hafter hgrows hvalue
  refine .bind hafter (safe_visit hkey (discipline.scope_mono hgrows hscope)) ?_
  intro place later _ hgrows' _
  exact safe_act ⟨hsite, Discipline.value_mono hgrows' hvalue⟩

/-! ## Calls -/

theorem safe_native {site : σ} (hkept : discipline.Kept store) {native : Native}
    {argument : Value} (hsite : discipline.rules.site site) :
    (native.call site argument).Safe discipline whole onExit store
      fun value after => discipline.value after value := by
  cases native with
  | print =>
      refine .bind hkept (safe_act trivial) ?_
      intro text after hafter _ _
      refine .bind hafter (safe_act hsite) ?_
      intro _ _ _ _ _
      trivial
  | println =>
      refine .bind hkept (safe_act trivial) ?_
      intro text after hafter _ _
      refine .bind hafter (safe_act hsite) ?_
      intro _ later hlater _ _
      refine .bind hlater (safe_act hsite) ?_
      intro _ _ _ _ _
      trivial
  | len =>
      refine .bind hkept (safe_act trivial) ?_
      intro length after _ _ _
      split
      · trivial
      · exact safe_raise hsite fun _ => rfl
  | str =>
      refine .bind hkept (safe_act trivial) ?_
      intro _ _ _ _ _
      trivial

theorem safe_bindParameters (hkept : discipline.Kept store) {site : σ} {scope : FrameId}
    (hsite : discipline.rules.site site) (hscope : discipline.scope store scope)
    {parameters : List TypedName} {arguments : List Value}
    (harguments : ∀ value ∈ arguments, discipline.value store value) :
    (bindParameters site scope parameters arguments).Safe discipline whole onExit store
      fun _ _ => True := by
  induction parameters generalizing store arguments with
  | nil => trivial
  | cons parameter parameters ih =>
      cases arguments with
      | nil => trivial
      | cons argument arguments =>
          rw [List.forall_mem_cons] at harguments
          refine .bind hkept (safe_act ⟨hsite, hscope, harguments.1⟩) ?_
          intro _ after hafter hgrows _
          exact ih hafter (discipline.scope_mono hgrows hscope)
            fun value hvalue => Discipline.value_mono hgrows (harguments.2 value hvalue)

/-- The body of a function is left early only by a return. -/
theorem safe_result (hkept : discipline.Kept store) {closure : Closure σ} {scope : FrameId}
    (hscope : discipline.scope store scope)
    (hbody : closure.body.Obeys discipline.rules .function) :
    (result closure scope).Safe discipline whole onExit store
      fun value after => discipline.value after value := by
  refine .attempt hkept (safe_visit hbody hscope) ?_ ?_
  · intro exit after _ _ hexit
    cases exit with
    | returned value site => exact hexit.2.2
    | breaking site | continuing site =>
        refine safe_raise hexit.1 fun hexits => ?_
        cases hexit.2 hexits
  · intro value after _ _ hvalue
    change discipline.value after (if closure.givesBody then value else .nil)
    split
    · exact hvalue
    · trivial

theorem safe_invoke (hkept : discipline.Kept store) {site : σ} {name : String}
    {closure : Closure σ} {arguments : List Value} (hsite : discipline.rules.site site)
    (hscope : discipline.scope store closure.scope)
    (hbody : closure.body.Obeys discipline.rules .function)
    (harguments : ∀ value ∈ arguments, discipline.value store value) :
    (invoke site name closure arguments).Safe discipline whole onExit store
      fun value after => discipline.value after value := by
  refine .bind hkept (safe_act hscope) ?_
  intro inner after hafter hgrows hinner
  refine .bind hafter (safe_bindParameters hafter hsite hinner.1 fun value hvalue =>
    Discipline.value_mono hgrows (harguments value hvalue)) ?_
  intro _ later hlater hgrows' _
  refine .bind hlater (safe_result hlater (discipline.scope_mono hgrows' hinner.1) hbody) ?_
  intro value last _ _ hvalue
  split
  · exact hvalue
  · exact safe_raise hsite fun _ => rfl

theorem safe_callFunction (hkept : discipline.Kept store) {callee : Tree σ}
    {trees : List (Tree σ)} {site : σ} {name : String} {function : Function σ}
    {arguments : List Value} (hsite : discipline.rules.site site)
    (hfunction : ∀ closure, function = .closure closure →
      discipline.scope store closure.scope ∧ closure.body.Obeys discipline.rules .function)
    (harguments : ∀ value ∈ arguments, discipline.value store value) :
    (callFunction site name function arguments).Safe discipline (.call site callee trees) onExit
      store fun value after => discipline.value after value := by
  cases function with
  | native native => exact safe_native hkept hsite
  | closure closure =>
      obtain ⟨hscope, hbody⟩ := hfunction closure rfl
      exact ⟨⟨callee, trees, rfl⟩, hsite, safe_invoke hkept hsite hscope hbody harguments⟩

theorem safe_call (hkept : discipline.Kept store) {scope : FrameId}
    (hscope : discipline.scope store scope) {site : σ} {callee : Tree σ}
    {arguments : List (Tree σ)} (hsite : discipline.rules.site site)
    (hcallee : callee.Obeys discipline.rules enclosure)
    (harguments : Tree.ObeyEach discipline.rules enclosure arguments) :
    SafeIn discipline (.call site callee arguments) enclosure (call site callee arguments scope)
      store := by
  refine .bind hkept (safe_visit hcallee hscope) ?_
  intro called after hafter hgrows hcalled
  refine .bind hafter (safe_each hafter (discipline.scope_mono hgrows hscope) harguments
    (List.forall_mem_nil _)) ?_
  intro values later hlater hgrows' hvalues
  have hcalled' := Discipline.value_mono hgrows' hcalled
  split
  · refine .bind hlater (safe_act hcalled') ?_
    intro function last hlast hgrows'' hfunction
    split
    · exact safe_raise hsite fun _ => rfl
    · next present =>
      split
      · refine safe_callFunction hlast hsite ?_ ?_
        · intro closure hclosure
          exact hfunction closure (congrArg some hclosure)
        · intro value hvalue
          exact Discipline.value_mono hgrows'' (hvalues value hvalue)
      · exact safe_raise hsite fun _ => rfl
  · exact safe_raise hsite fun _ => rfl

/-! ## Definitions -/

theorem safe_functionDef (hkept : discipline.Kept store) {scope : FrameId}
    (hscope : discipline.scope store scope) {site : σ} {returnType name : String}
    {parameters : List (Parameter σ)} {givesBody : Bool} {body : Tree σ}
    (hsite : discipline.rules.site site)
    (hparameters : ∀ parameter ∈ parameters, discipline.rules.site parameter.site)
    (hbody : body.Obeys discipline.rules .function) :
    SafeIn discipline whole enclosure
      (functionDef site returnType name parameters givesBody body scope) store := by
  refine .bind hkept (safe_resolveType hsite) ?_
  intro declared after hafter hgrows _
  refine .bind hafter (safe_resolveParameters hafter hparameters) ?_
  intro typed later hlater hgrows' _
  have hlaterScope := discipline.scope_mono (hgrows.trans hgrows') hscope
  refine .bind hlater (safe_act ⟨hlaterScope, hbody⟩) ?_
  intro id made hmade hgrows'' hid
  have hmadeScope := discipline.scope_mono hgrows'' hlaterScope
  refine .bind hmade (safe_act ⟨hsite, hmadeScope, hid⟩) ?_
  intro _ last _ hgrows''' _
  exact discipline.function_mono hgrows''' hid

theorem safe_namespaceDef (hkept : discipline.Kept store) {scope : FrameId}
    (hscope : discipline.scope store scope) {site : σ} {name : String} {body : Tree σ}
    (hsite : discipline.rules.site site) (hbody : body.Obeys discipline.rules enclosure) :
    SafeIn discipline whole enclosure (namespaceDef site name body scope) store := by
  refine .bind hkept (safe_act hscope) ?_
  intro inner after hafter hgrows hinner
  refine .bind hafter (safe_visit hbody hinner.1) ?_
  intro _ later hlater hgrows' _
  have hspace := discipline.space_mono hgrows' hinner.2
  have hlaterScope := discipline.scope_mono (hgrows.trans hgrows') hscope
  refine .bind hlater (safe_act ⟨hsite, hlaterScope, hspace⟩) ?_
  intro _ last _ hgrows'' _
  exact discipline.space_mono hgrows'' hspace

/-! ## Branches and loops -/

theorem safe_inside (hkept : discipline.Kept store) {scope : FrameId}
    (hscope : discipline.scope store scope) {body : Tree σ}
    (hbody : body.Obeys discipline.rules enclosure) :
    SafeIn discipline whole enclosure (inside body scope) store := by
  refine .bind hkept (safe_act hscope) ?_
  intro inner after _ _ hinner
  exact safe_visit hbody hinner.1

/-- The condition and the body of the first branch, and the branches behind it. -/
theorem safe_branches {branches : Branches σ} (hkept : discipline.Kept store) {scope : FrameId}
    (hscope : discipline.scope store scope) (hobey : branches.Obey discipline.rules enclosure) :
    SafeIn discipline whole enclosure (Eval.branches scope branches) store := by
  induction branches using Eval.branches.induct generalizing store with
  | case1 => trivial
  | case2 body => exact safe_inside hkept hscope hobey
  | case3 condition body rest ih =>
      refine .bind hkept (safe_visit hobey.1 hscope) ?_
      intro value after hafter hgrows _
      have hafterScope := discipline.scope_mono hgrows hscope
      split
      · exact safe_inside hafter hafterScope hobey.2.1
      · exact ih hafter hafterScope hobey.2.2

theorem safe_rounds {condition body : Tree σ} {scope : FrameId}
    (hcondition : condition.Obeys discipline.rules enclosure)
    (hbody : body.Obeys discipline.rules enclosure.loop) {bound : Nat} :
    ∀ {store : Store σ} {before : Value}, discipline.Kept store →
      discipline.scope store scope → discipline.value store before →
      SafeIn discipline whole enclosure (rounds condition body scope bound before) store := by
  induction bound with
  | zero =>
      intro store before _ _ _
      trivial
  | succ bound ih =>
      intro store before hkept hscope hbefore
      refine .bind hkept (safe_visit hcondition hscope) ?_
      intro value after hafter hgrows _
      have hafterScope := discipline.scope_mono hgrows hscope
      have hafterBefore := Discipline.value_mono hgrows hbefore
      split
      · refine .attempt hafter (safe_inside hafter hafterScope hbody) ?_ ?_
        · intro exit later hlater hgrows' hexit
          have hlaterScope := discipline.scope_mono hgrows' hafterScope
          have hlaterBefore := Discipline.value_mono hgrows' hafterBefore
          cases exit with
          | returned value site => exact hexit
          | breaking site => exact hlaterBefore
          | continuing site => exact ih hlater hlaterScope hlaterBefore
        · intro value later hlater hgrows' hvalue
          exact ih hlater (discipline.scope_mono hgrows' hafterScope) hvalue
      · exact hafterBefore

/-! ## All trees -/

theorem safe_step (hkept : discipline.Kept store) {scope : FrameId}
    (hscope : discipline.scope store scope) {tree : Tree σ} {bound : Nat}
    (hobeys : tree.Obeys discipline.rules enclosure) :
    SafeIn discipline tree enclosure (step bound tree scope) store := by
  cases tree with
  | number site value | string site value => trivial
  | identifier site name => exact safe_act ⟨hobeys, hscope⟩
  | binary site operator left right =>
      exact safe_binary hkept hscope hobeys.1 hobeys.2.1 hobeys.2.2
  | unary site operator operand => exact safe_unary hkept hscope hobeys.1 hobeys.2
  | assign site target value => exact safe_assignment hkept hscope hobeys.2.1 hobeys.2.2
  | declare site typeName name value => exact safe_declaration hkept hscope hobeys.1 hobeys.2
  | list site items =>
      refine .bind hkept (safe_each hkept hscope hobeys.2 (List.forall_mem_nil _)) ?_
      intro values after _ _ hvalues
      exact Value.refersTo_list_iff.mpr hvalues
  | member site object name => exact safe_member hkept hscope hobeys.1 hobeys.2
  | index site object key => exact safe_element hkept hscope hobeys.1 hobeys.2.1 hobeys.2.2
  | call site callee arguments => exact safe_call hkept hscope hobeys.1 hobeys.2.1 hobeys.2.2
  | functionDef site returnType name parameters givesBody body =>
      exact safe_functionDef hkept hscope hobeys.1 hobeys.2.1 hobeys.2.2
  | conditional site condition body rest => exact safe_branches hkept hscope hobeys.2
  | whileLoop site condition body =>
      exact safe_rounds hobeys.2.1 hobeys.2.2 hkept hscope trivial
  | namespaceDef site name body => exact safe_namespaceDef hkept hscope hobeys.1 hobeys.2
  | returnNothing site => exact ⟨hobeys.1, hobeys.2, trivial⟩
  | returnValue site value =>
      refine .bind hkept (safe_visit hobeys.2.2 hscope) ?_
      intro returned after _ _ hreturned
      exact ⟨hobeys.1, hobeys.2.1, hreturned⟩
  | breakLoop site | continueLoop site => exact hobeys
  | block site statements => exact safe_last hkept hscope hobeys.2 trivial

end Script.Eval

namespace Script.Discipline

open Eval

variable {σ : Type} (discipline : Discipline σ)

/-- The evaluation of a tree that obeys the rules keeps the discipline, within every
budget and however it ends. -/
theorem evaluate {enclosure : Enclosure} (budget : Nat) {tree : Tree σ} {scope : FrameId}
    {state : State σ} (hkept : discipline.Kept state.store)
    (hobeys : tree.Obeys discipline.rules enclosure)
    (hscope : discipline.scope state.store scope) :
    (Eval.evaluate budget tree scope state).Keeps discipline state.store
      (discipline.Exits enclosure) (fun value after => discipline.value after value) := by
  induction budget generalizing enclosure tree scope state with
  | zero => trivial
  | succ budget ih => exact Safe.run ih hkept (safe_step hkept hscope hobeys)

end Script.Discipline
