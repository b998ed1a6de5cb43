/-
# Operations and assignments are recognized

The levels of operators stack on the operands, from signs up to conjunctions and
disjunctions. What carries on a level is what carries on the level below it and its
own operators, and all levels together, with the sign of an assignment, are what
carries on an operation.
-/

import Script.Proofs.Grammar.Operand

namespace Script.Grammar

open Script.Parser

variable {bound : Nat} {ending : Token} {tokens : List Token} {expression : Parser Node}

/-! ## Levels of operators -/

theorem RecognizesLevel.of_iff {parser : Parser Node} {read read' : Reading (Tree Unit)}
    {carries : Token.Kind → Bool} (h : RecognizesLevel bound parser read carries)
    (hiff : ∀ {tokens rest tree}, read' tokens rest tree ↔ read tokens rest tree) :
    RecognizesLevel bound parser read' carries where
  sound hending hlength hrun := by
    obtain ⟨rest, hafter, hbehind, hread, hstop⟩ := h.sound hending hlength hrun
    exact ⟨rest, hafter, hbehind, hiff.mpr hread, hstop⟩
  complete hending hlength hread hclear hstop :=
    h.complete hending hlength (hiff.mp hread) hclear hstop

theorem ofSignKind?_eq_none {kind : Token.Kind} (h : startsOperand kind = true) :
    UnaryOperator.ofSignKind? kind = none := by
  cases kind <;> first | rfl | cases h

theorem ofNotKind?_eq_none {kind : Token.Kind} (h : startsSigned kind = true) :
    UnaryOperator.ofNotKind? kind = none := by
  cases kind with
  | keyword word => cases word <;> first | rfl | cases h
  | _ => rfl

/-- What carries on a product. -/
def carriesProduct : Token.Kind → Bool :=
  carriesLevel trailsOperand BinaryOperator.ofFactorKind?

/-- What carries on a sum. -/
def carriesSum : Token.Kind → Bool := carriesLevel carriesProduct BinaryOperator.ofTermKind?

/-- What carries on a comparison. -/
def carriesComparison : Token.Kind → Bool :=
  carriesLevel carriesSum BinaryOperator.ofComparisonKind?

/-- What carries on a conjunction or disjunction. -/
def carriesLogical : Token.Kind → Bool :=
  carriesLevel carriesComparison BinaryOperator.ofLogicalKind?

theorem carriesOn_eq_false_iff {kind : Token.Kind} :
    carriesOn kind = false ↔ carriesLogical kind = false ∧ kind ≠ .equal := by
  have hsplit : carriesOn kind = (carriesLogical kind || decide (kind = .equal)) := rfl
  rw [hsplit, Bool.or_eq_false_iff, decide_eq_false_iff_not]

variable (hexpression : RecognizesPlaced bound expression Expression EndsExpression)

include hexpression

theorem recognizes_product :
    RecognizesLevel (bound + 1) (product bound expression) Product carriesProduct := by
  have hsigned : RecognizesLevel (bound + 1) (Parser.signed bound expression)
      (Prefixed UnaryOperator.ofSignKind? Operand) trailsOperand :=
    recognizes_rightAssociative (recognizes_operand hexpression)
      fun hread => ofSignKind?_eq_none hread.starts
  have hoperator {kind operator} (h : BinaryOperator.ofFactorKind? kind = some operator) :
      isClear kind = true ∧ trailsOperand kind = false := by
    cases kind <;> first | exact ⟨rfl, rfl⟩ | cases h
  exact (recognizes_leftAssociative hsigned rfl hoperator).of_iff ⟨by rintro ⟨h⟩; exact h, .intro⟩

theorem recognizes_sum : RecognizesLevel (bound + 1) (sum bound expression) Sum carriesSum := by
  have hoperator {kind operator} (h : BinaryOperator.ofTermKind? kind = some operator) :
      isClear kind = true ∧ carriesProduct kind = false := by
    cases kind <;> first | exact ⟨rfl, rfl⟩ | cases h
  exact (recognizes_leftAssociative (recognizes_product hexpression) rfl hoperator).of_iff
    ⟨by rintro ⟨h⟩; exact h, .intro⟩

theorem recognizes_comparison :
    RecognizesLevel (bound + 1) (comparison bound expression) Comparison carriesComparison := by
  have hoperator {kind operator} (h : BinaryOperator.ofComparisonKind? kind = some operator) :
      isClear kind = true ∧ carriesSum kind = false := by
    cases kind <;> first | exact ⟨rfl, rfl⟩ | cases h
  have hsums := recognizes_leftAssociative (recognizes_sum hexpression) rfl hoperator
  have hstart {tokens rest tree}
      (h : LeftAssociative BinaryOperator.ofComparisonKind? Sum tokens rest tree) :
      UnaryOperator.ofNotKind? (nextKind tokens) = none :=
    ofNotKind?_eq_none (LeftAssociative.starts Sum.starts h)
  exact (recognizes_rightAssociative hsums hstart).of_iff ⟨by rintro ⟨h⟩; exact h, .intro⟩

theorem recognizes_logical :
    RecognizesLevel (bound + 1) (logical bound expression) Logical carriesLogical := by
  have hoperator {kind operator} (h : BinaryOperator.ofLogicalKind? kind = some operator) :
      isClear kind = true ∧ carriesComparison kind = false := by
    cases kind with
    | keyword word => cases word <;> first | exact ⟨rfl, rfl⟩ | cases h
    | _ => cases h
  exact (recognizes_leftAssociative (recognizes_comparison hexpression) rfl hoperator).of_iff
    ⟨by rintro ⟨h⟩; exact h, .intro⟩

/-! ## Assignments -/

theorem sound_assignment (hending : ending.kind = .endOfInput)
    (hlength : tokens.length < bound + 1) {node : Node} {after : TokenStream}
    (hrun : (assignment bound expression).run ⟨tokens, ending⟩ = .ok (node, after)) :
    ∃ rest, after = ⟨rest, ending⟩ ∧ Behind rest tokens ∧
      ∀ place, Expression place tokens rest node.shape := by
  obtain ⟨target, _, htarget, hrun⟩ := run_bind_eq_ok_iff.mp hrun
  obtain ⟨middle, rfl, hbehind, hread, hstop⟩ :=
    (recognizes_logical hexpression).sound hending hlength htarget
  have hshort := hbehind.2
  obtain ⟨taken, _, haccept, hrun⟩ := run_bind_eq_ok_iff.mp hrun
  rw [run_accept_eq_ok_iff hending (by decide)] at haccept
  obtain ⟨equal, inner, rfl, hequal, rfl, rfl⟩ | ⟨hnext, rfl, rfl⟩ := haccept
  · rw [if_pos rfl] at hrun
    rw [List.length_cons] at hshort
    split at hrun
    · next hassignable =>
      obtain ⟨value, _, hvalue, hpure⟩ := run_bind_eq_ok_iff.mp hrun
      obtain ⟨rest, rfl, hrest, hreads⟩ := hexpression.sound hending (by omega) hvalue
      cases hpure
      have hinner := hbehind.trans (.of_cons equal inner)
      rw [← Tree.isAssignable_shape] at hassignable
      exact ⟨rest, rfl, hinner.trans hrest,
        fun place => .assignment hread hequal hassignable (hreads place)⟩
    · cases hrun
  · cases hrun
    have hends : carriesOn (nextKind middle) = false := carriesOn_eq_false_iff.mpr ⟨hstop, hnext⟩
    refine ⟨middle, rfl, hbehind, fun place => .operation hread ?_⟩
    cases place with
    | enclosed => trivial
    | branch => exact hends

theorem complete_operation (hending : ending.kind = .endOfInput)
    (hlength : tokens.length < bound + 1) {rest : List Token} {tree : Tree Unit}
    (hread : Logical tokens rest tree) (hclear : Clear rest) (hends : EndsExpression rest) :
    ∃ node, (assignment bound expression).run ⟨tokens, ending⟩ = .ok (node, ⟨rest, ending⟩) ∧
      node.shape = tree := by
  obtain ⟨hstop, hnext⟩ := carriesOn_eq_false_iff.mp hends
  obtain ⟨node, hnode, rfl⟩ :=
    (recognizes_logical hexpression).complete hending hlength hread hclear hstop
  have haccept : (accept .equal).run ⟨rest, ending⟩ = .ok (false, ⟨rest, ending⟩) :=
    (run_accept_eq_ok_iff hending (by decide)).mpr (.inr ⟨hnext, rfl, rfl⟩)
  refine ⟨node, ?_, rfl⟩
  rw [assignment, run_bind_of_ok hnode, run_bind_of_ok haccept]
  rfl

theorem complete_assignment (hending : ending.kind = .endOfInput)
    (hlength : tokens.length < bound + 1) {place : Place} {equal : Token}
    {middle rest : List Token} {target value : Tree Unit}
    (hread : Logical tokens (equal :: middle) target) (hequal : equal.kind = .equal)
    (hassignable : target.isAssignable = true) (hvalue : Expression place middle rest value)
    (hclear : Clear rest) (hends : place = .enclosed → EndsExpression rest) :
    ∃ node, (assignment bound expression).run ⟨tokens, ending⟩ = .ok (node, ⟨rest, ending⟩) ∧
      node.shape = .assign () target value := by
  have hnext : nextKind (equal :: middle) = .equal := hequal
  have hmiddle : Clear (equal :: middle) := .of_nextKind (by rw [hnext]; rfl)
  have hstop : carriesLogical (nextKind (equal :: middle)) = false := by rw [hnext]; rfl
  have hlogical := recognizes_logical hexpression
  obtain ⟨targetNode, htarget, rfl⟩ := hlogical.complete hending hlength hread hmiddle hstop
  have hshort := (hlogical.behind hlength hread hmiddle hstop).2
  rw [List.length_cons] at hshort
  have haccept : (accept .equal).run ⟨equal :: middle, ending⟩ = .ok (true, ⟨middle, ending⟩) :=
    (run_accept_eq_ok_iff hending (by decide)).mpr (.inl ⟨equal, middle, rfl, hequal, rfl, rfl⟩)
  obtain ⟨node, hnode, rfl⟩ := hexpression.complete hending (by omega) hvalue hclear hends
  rw [Tree.isAssignable_shape] at hassignable
  refine ⟨.assign (targetNode.site.through node.site) targetNode node, ?_, rfl⟩
  rw [assignment, run_bind_of_ok htarget, run_bind_of_ok haccept, if_pos rfl, if_pos hassignable,
    run_bind_of_ok hnode]
  rfl

end Script.Grammar
