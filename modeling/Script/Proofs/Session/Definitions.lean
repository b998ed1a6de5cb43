/-
# Definitions that are made again

The definition of a function or of a namespace binds its name in the frame in which it is
evaluated. A name that is free there is bound last. A name that is bound there already is
bound again in its place if it was bound to a value of the same kind, and otherwise the
definition fails and the frame stays as it is, whatever gave the name its binding: another
definition, a declaration, an assignment or a member that was set.

Under the type of all values a name cannot be defined at all. What is compared with the new
value is the declared type of the binding and not the kind of the value that it has, and
these two differ for a function or a namespace under that type only.
-/

import Script.Proofs.Eval.Scope
import Script.Proofs.Heap.Chain
import Script.Proofs.Session.Integrity

namespace Script

open Eval

variable {σ : Type}

/-! ## Kinds and declared types -/

/-- A function or a namespace is accepted under its own kind and under the type of all values
only. -/
theorem TypeTag.eq_or_eq_object_of_admits {tag kind : TypeTag}
    (hkind : kind = .function ∨ kind = .ns) (h : tag.admits kind = true) :
    tag = kind ∨ tag = .object := by
  obtain rfl | rfl := hkind
  · cases tag <;> simp [admits] at h ⊢
  · cases tag <;> simp [admits] at h ⊢

/-- A binding is declared as a function or as a namespace if and only if it has one and is not
declared as an object. -/
theorem Binding.declared_eq_iff {binding : Binding} {kind : TypeTag}
    (hkind : kind = .function ∨ kind = .ns)
    (haccepts : binding.declared.accepts binding.value = true) :
    binding.declared = kind ↔ binding.value.tag = kind ∧ binding.declared ≠ .object := by
  constructor
  · intro hdeclared
    rw [TypeTag.accepts, hdeclared] at haccepts
    obtain rfl | rfl := hkind
    all_goals
      rw [hdeclared]
      exact ⟨(of_decide_eq_true haccepts).symm, nofun⟩
  · rintro ⟨htag, hobject⟩
    rw [TypeTag.accepts, htag] at haccepts
    exact (TypeTag.eq_or_eq_object_of_admits hkind haccepts).resolve_right hobject

/-! ## Evaluating a definition -/

/-- A parameter with the type that its type's name stands for. -/
def Parameter.typed? (parameter : Parameter σ) : Option TypedName :=
  (TypeRegistry.builtin.resolve parameter.typeName).map (⟨parameter.name, ·⟩)

namespace Eval

/-- What a definition has done when it is about to bind its name to a value: a function's
type names stand for types and the function has been made, or a namespace's body has been
evaluated in a new frame and gave a value. -/
inductive Defines (budget : Nat) (scope : FrameId) (state : State σ) :
    Tree σ → String → Value → State σ → Prop
  | function {site : σ} {returnType name : String} {parameters : List (Parameter σ)}
      {givesBody : Bool} {body : Tree σ} {declared : TypeTag} {typed : List TypedName} :
      TypeRegistry.builtin.resolve returnType = some declared →
      parameters.mapM Parameter.typed? = some typed →
      Defines budget scope state
        (.functionDef site returnType name parameters givesBody body) name
        (.function name ⟨state.functions.size⟩)
        (state.pushFunction (.closure ⟨typed, declared, givesBody, body, scope⟩)).2
  | space {site : σ} {name : String} {body : Tree σ} {result : Value} {middle : State σ} :
      evaluate budget body (state.enter scope).1 (state.enter scope).2 = .done result middle →
      Defines budget scope state (.namespaceDef site name body) name
        (.space name (state.enter scope).1) middle

theorem resolveType_of_resolve {site : σ} {name : String} {tag : TypeTag}
    (h : TypeRegistry.builtin.resolve name = some tag) : resolveType site name = give tag := by
  rw [resolveType, h]

theorem resolveParameters_of_typed {parameters : List (Parameter σ)} {typed : List TypedName}
    (h : parameters.mapM Parameter.typed? = some typed) :
    resolveParameters parameters = give typed := by
  induction parameters generalizing typed with
  | nil =>
      cases h
      rfl
  | cons parameter rest ih =>
      rw [List.mapM_cons] at h
      obtain ⟨first, hfirst, h⟩ := Option.bind_eq_some_iff.mp h
      obtain ⟨others, hothers, h⟩ := Option.bind_eq_some_iff.mp h
      obtain ⟨declared, hdeclared, rfl⟩ := Option.map_eq_some_iff.mp hfirst
      cases h
      rw [resolveParameters, resolveType_of_resolve hdeclared, ih hothers]
      rfl

namespace Defines

variable {budget : Nat} {scope : FrameId} {state middle : State σ} {definition : Tree σ}
  {name : String} {value : Value}

/-- What is left of a definition is to bind the name. -/
theorem evaluate_eq (h : Defines budget scope state definition name value middle) :
    evaluate (budget + 1) definition scope state =
      (Outcome.ofAction (middle.changeHeap definition.site fun heap =>
        heap.bindDefinition scope name value)).andThen fun _ after => .done value after := by
  cases h with
  | @function site returnType _ parameters givesBody body _ _ hreturn hparameters =>
      change (functionDef site returnType name parameters givesBody body scope).run _ state = _
      rw [functionDef, resolveType_of_resolve hreturn, resolveParameters_of_typed hparameters]
      change (act _ >>= fun _ => give _).run _ (state.pushFunction _).2 = _
      rw [run_bind, run_act]
      rfl
  | @space site _ body _ _ hbody =>
      change (namespaceDef site name body scope).run (evaluate budget) state = _
      rw [namespaceDef]
      change (visit body (state.enter scope).1 >>= fun _ => act _ >>= fun _ => give _).run _
        (state.enter scope).2 = _
      rw [run_bind, run_visit, hbody]
      change (act _ >>= fun _ => give _).run _ _ = _
      rw [run_bind, run_act]
      rfl

/-- The value has the kind of its definition. -/
theorem tag_cases (h : Defines budget scope state definition name value middle) :
    value.tag = .function ∨ value.tag = .ns := by
  cases h with
  | function => exact .inl rfl
  | space => exact .inr rfl

/-- The name is bound in a well formed store, in which the frame still exists. -/
theorem wellFormed (h : Defines budget scope state definition name value middle)
    (hstate : state.store.WellFormed) (hscope : state.store.HasFrame scope) :
    middle.store.WellFormed ∧ middle.store.HasFrame scope := by
  cases h with
  | function =>
      exact ⟨hstate.pushFunction fun heq => by cases heq; exact hscope, hscope⟩
  | @space _ _ body _ _ hbody =>
      have hkept := kept_of_wellFormed (hstate.pushFrame hscope)
      have hinner : (state.enter scope).2.store.HasFrame (state.enter scope).1 :=
        Store.hasFrame_pushFrame state.store scope
      have hkeeps := Discipline.wellFormed.evaluate budget hkept (body.obeys_free .program) hinner
      rw [hbody] at hkeeps
      obtain ⟨hafter, hgrows, -⟩ := hkeeps
      have hentered := Store.Grows.pushFrame state.store scope
      exact ⟨hafter.sound, (hscope.mono hentered).mono hgrows⟩

end Defines

end Eval

/-! ## Binding the name -/

/-- A heap is another in which a name was bound to a value in one frame: there the name has
the value, under its kind and in the place that it had, if it had one, or else behind the
other names, and nothing else has changed. -/
structure Heap.Rebinds (heap after : Heap) (id : FrameId) (name : String) (value : Value) :
    Prop where
  writes : heap.Writes after id name ⟨value, value.tag⟩
  place : ∀ slot, (heap.frame id).slot? name = some slot →
    (after.frame id).Binds slot name ⟨value, value.tag⟩

theorem Frame.binds_insert_of_slot? {frame : Frame} {name : String} {slot : Nat}
    {binding : Binding} (hindexed : frame.Indexed) (h : frame.slot? name = some slot) :
    (frame.insert name binding).Binds slot name binding := by
  obtain ⟨_, hold⟩ := (hindexed name slot).mp h
  have hlt : slot < frame.slots.size := (Array.getElem?_eq_some_iff.mp hold).1
  simp [Binds, insert, h, hlt]

theorem Heap.rebinds_define {heap : Heap} {id : FrameId} {name : String} {value : Value}
    (hindexed : (heap.frame id).Indexed) (hid : id.index < heap.frames.size) :
    heap.Rebinds (heap.define id name value) id name value where
  writes := writes_insert hindexed hid
  place slot hslot := by
    rw [define, frame_insert hid]
    exact Frame.binds_insert_of_slot? hindexed hslot

namespace Eval.Defines

variable {budget : Nat} {scope : FrameId} {state middle : State σ} {definition : Tree σ}
  {name : String} {value : Value}

/-- Where no binding stands in its way, a definition binds its name. -/
theorem evaluate_of_admitted (h : Defines budget scope state definition name value middle)
    (hadmitted : ∀ existing, middle.heap.binding? scope name = some existing →
      existing.declared = value.tag) :
    evaluate (budget + 1) definition scope state =
      .done value { middle with heap := middle.heap.define scope name value } := by
  have hbind := Heap.bindDefinition_eq_ok_iff.mpr ⟨hadmitted, rfl⟩
  rw [h.evaluate_eq, State.changeHeap, hbind]
  rfl

/-- Where its name is bound under another type, a definition fails and binds nothing. -/
theorem evaluate_of_refused (h : Defines budget scope state definition name value middle)
    {existing : Binding} (hexisting : middle.heap.binding? scope name = some existing)
    (hne : existing.declared ≠ value.tag) :
    evaluate (budget + 1) definition scope state =
      .interrupted (.error ⟨.binding (.redeclared name existing.declared value.tag),
        definition.site, middle.calls⟩) middle := by
  have hbind := Heap.bindDefinition_eq_error_iff.mpr ⟨⟨existing, hexisting, hne, rfl⟩, rfl⟩
  rw [h.evaluate_eq, State.changeHeap, hbind]
  rfl

end Eval.Defines

/-! ## Sessions -/

namespace Session

/-- A definition of a name gives its value, binds the name to it and leaves the rest of the
heap as it is, if the name is admitted in the frame; otherwise it fails with incompatible
types and leaves everything as it is. -/
structure Replaces (outcome : Outcome σ Value) (middle : State σ) (scope : FrameId)
    (name : String) (value : Value) (admitted : Prop) : Prop where
  succeeds_iff : (∃ given after, outcome = .done given after) ↔ admitted
  rebinds : ∀ given after, outcome = .done given after →
    given = value ∧ middle.heap.Rebinds after.heap scope name value
  refuses : ¬admitted → ∃ error, outcome = .interrupted (.error error) middle ∧
    error.fault.category = .incompatibleTypes

/-- At every moment of every program, whatever session it runs in, and in every frame, a
definition that has come to bind its name does so if and only if the name is free in that
frame, or is bound there to a value of the same kind under another type than that of all
values. -/
theorem replaces_of_defines {session : Session} (hsession : session.Reachable)
    {budget : Nat} {tree : Tree Span} {moment : Moment Span}
    (hreaches : (Moment.ofProgram budget tree session.state).Reaches moment)
    {scope : FrameId} (hscope : moment.state.store.HasFrame scope) {bound : Nat}
    {definition : Tree Span} {name : String} {value : Value} {middle : State Span}
    (hdefines : Defines bound scope moment.state definition name value middle) :
    Replaces (evaluate (bound + 1) definition scope moment.state) middle scope name value
      (∀ existing, middle.heap.binding? scope name = some existing →
        existing.value.tag = value.tag ∧ existing.declared ≠ .object) := by
  have hstate := (Moment.wellFormed_of_reaches hsession.wellFormed hreaches).store
  obtain ⟨hmiddle, hframe⟩ := hdefines.wellFormed hstate hscope
  have hkind : ∀ existing, middle.heap.binding? scope name = some existing →
      (existing.declared = value.tag ↔
        existing.value.tag = value.tag ∧ existing.declared ≠ .object) := by
    intro existing hexisting
    obtain ⟨_, _, hbinds⟩ := Frame.exists_binds_of_binding? hexisting
    exact Binding.declared_eq_iff hdefines.tag_cases ((hmiddle.frame hframe).accepts hbinds)
  cases hbind : middle.heap.bindDefinition scope name value with
  | ok heap =>
      obtain ⟨hadmitted, -⟩ := Heap.bindDefinition_eq_ok_iff.mp hbind
      have hdone := hdefines.evaluate_of_admitted hadmitted
      have hsame : ∀ existing, middle.heap.binding? scope name = some existing →
          existing.value.tag = value.tag ∧ existing.declared ≠ .object :=
        fun existing hexisting => (hkind existing hexisting).mp (hadmitted existing hexisting)
      constructor
      case succeeds_iff => exact ⟨fun _ => hsame, fun _ => ⟨_, _, hdone⟩⟩
      case rebinds =>
        intro given after hgiven
        cases hdone.symm.trans hgiven
        exact ⟨rfl, Heap.rebinds_define (hmiddle.indexed scope) hframe⟩
      case refuses => exact fun hnot => (hnot hsame).elim
  | error problem heap =>
      obtain ⟨⟨existing, hexisting, hne, -⟩, -⟩ := Heap.bindDefinition_eq_error_iff.mp hbind
      have herror := hdefines.evaluate_of_refused hexisting hne
      constructor
      case succeeds_iff =>
        constructor
        · rintro ⟨given, after, hgiven⟩
          cases herror.symm.trans hgiven
        · intro hall
          exact (hne ((hkind existing hexisting).mpr (hall existing hexisting))).elim
      case rebinds =>
        intro given after hgiven
        cases herror.symm.trans hgiven
      case refuses => exact fun _ => ⟨_, herror, rfl⟩

/-- The definition of a function that gives one. -/
def definitionOfOne (name : String) : Tree Span :=
  .functionDef default "int" name [] true (.number default (.int 1))

/-- The definition of a name that every session begins with, bound to another function. -/
theorem replaces_of_definitionOfOne :
    ∃ middle : State Span,
      Defines 0 State.globals { (Session.fresh none).state with calls := [] }
        (definitionOfOne "len") "len" (.function "len" ⟨4⟩) middle ∧
      middle.heap.binding? State.globals "len" =
        some ⟨.function "len" ⟨2⟩, .function⟩ ∧
      ∃ after, evaluate 1 (definitionOfOne "len") State.globals
          { (Session.fresh none).state with calls := [] } = .done (.function "len" ⟨4⟩) after ∧
        middle.heap.Rebinds after.heap State.globals "len" (.function "len" ⟨4⟩) := by
  have hglobals := (State.wellFormed_initial (σ := Span) none).globals
  have hdefines : Defines 0 State.globals { (Session.fresh none).state with calls := [] }
      (definitionOfOne "len") "len" (.function "len" ⟨4⟩) _ := .function rfl rfl
  have hreaches : (Moment.ofProgram 1 (definitionOfOne "len")
      (Session.fresh none).state).Reaches _ := .refl
  have hreplaces := replaces_of_defines (.fresh none) hreaches hglobals hdefines
  have hbinding : (Session.fresh none).heap.binding? State.globals "len" =
      some ⟨.function "len" ⟨2⟩, .function⟩ := rfl
  obtain ⟨given, after, hdone⟩ := hreplaces.succeeds_iff.mpr fun existing hexisting => by
    cases hbinding.symm.trans hexisting
    exact ⟨rfl, nofun⟩
  obtain ⟨rfl, hrebinds⟩ := hreplaces.rebinds given after hdone
  exact ⟨_, hdefines, hbinding, after, hdone, hrebinds⟩

/-- The declaration of a name under the type of all values, for a function. -/
def declarationOfObject : Tree Span :=
  .declare default "object" "f" (.identifier default "print")

/-- That a name is bound to a value of the same kind is not enough for its definition: under
the type of all values a function is bound, and the definition of a function is refused. -/
theorem not_forall_replaces :
    ¬∀ (session : Session), session.Reachable →
      ∀ (budget : Nat) (tree : Tree Span) (moment : Moment Span),
        (Moment.ofProgram budget tree session.state).Reaches moment →
      ∀ (scope : FrameId), moment.state.store.HasFrame scope →
      ∀ (bound : Nat) (definition : Tree Span) (name : String) (value : Value)
        (middle : State Span), Defines bound scope moment.state definition name value middle →
        Replaces (evaluate (bound + 1) definition scope moment.state) middle scope name value
          (∀ existing, middle.heap.binding? scope name = some existing →
            existing.value.tag = value.tag) := by
  intro hall
  obtain ⟨answer, after, hrun, hbinding⟩ : ∃ answer after,
      (Session.fresh none).runTree 2 declarationOfObject = some (answer, after) ∧
        after.heap.binding? State.globals "f" = some ⟨.function "print" ⟨0⟩, .object⟩ :=
    ⟨_, _, rfl, rfl⟩
  have hafter : after.Reachable := .runTree (.fresh none) trivial hrun
  have hglobals := hafter.wellFormed.globals
  have hdefines : Defines 0 State.globals { after.state with calls := [] }
      (definitionOfOne "f") "f" _ _ := .function rfl rfl
  have hreplaces := hall after hafter 1 (definitionOfOne "f") _ .refl State.globals hglobals 0 _ _
    _ _ hdefines
  have herror := hdefines.evaluate_of_refused hbinding nofun
  obtain ⟨given, later, hdone⟩ := hreplaces.succeeds_iff.mpr fun existing hexisting => by
    cases hbinding.symm.trans hexisting
    rfl
  cases herror.symm.trans hdone

end Session

end Script
