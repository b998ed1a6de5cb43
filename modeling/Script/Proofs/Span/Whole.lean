/-
# A whole row on one level is a statement

What a row is read as on one level of operations, up to its end, it is read as on every
looser one, and as a statement: at the end of a row no operator follows, and what begins
on one level begins on no looser one.
-/

import Script.Proofs.Grammar.Expression
import Script.Proofs.Parser.Operation
import Script.Proofs.Span.Place

namespace Script.Parser

open Grammar

variable {row part : List Token} {start stop upto : Nat} {node : Node} {ending : Token}

theorem Whole.of_reads
    (h : Reads row (fun bound => bound) (fun bound => statement (expression bound)) start stop upto
      node) (hupto : upto ≤ row.length) : Whole (between row start stop) node := by
  intro bound ending hending hlength
  rw [length_between (Nat.le_trans h.stop_le hupto)] at hlength
  have hrun := h.run hending (Nat.le_refl stop) h.stop_le hlength
  rwa [between_self] at hrun

/-- The parsers of one level read a whole row as a node, given a round for each token and one
in which nothing is left. -/
def ReadsAll (parser : Nat → Parser Node) (part : List Token) (node : Node) : Prop :=
  ∀ bound ending, ending.kind = .endOfInput → part.length ≤ bound → 0 < bound →
    (parser bound).run ⟨part, ending⟩ = .ok (node, ⟨[], ending⟩)

namespace ReadsAll

theorem of_reads {parser : Nat → Parser Node}
    (h : Reads row (fun bound => bound + 1) parser start stop upto node)
    (hupto : upto ≤ row.length) : ReadsAll parser (between row start stop) node := by
  intro bound ending hending hlength _
  rw [length_between (Nat.le_trans h.stop_le hupto)] at hlength
  have hrun := h.run hending (Nat.le_refl stop) h.stop_le (Nat.lt_succ_of_le hlength)
  rwa [between_self] at hrun

theorem whole (h : ReadsAll (fun bound => expressionWith bound (expression bound)) part node) :
    Whole part node := by
  intro bound ending hending hlength
  have hbound := Nat.zero_lt_of_lt hlength
  have hsound := sound_expressionWith (recognizes_expression bound) hending
    (Nat.lt_succ_of_lt hlength) (h bound ending hending (Nat.le_of_lt hlength) hbound)
  obtain ⟨rest, _, hbehind, hread⟩ := hsound
  have hexit := isExit_eq_false_of_starts (hread .enclosed).starts
  have hless := hbehind.2
  rw [run_statement_of_not_isExit hending hexit]
  obtain ⟨bound, rfl⟩ := Nat.exists_eq_succ_of_ne_zero (Nat.ne_of_gt hbound)
  exact h bound ending hending (Nat.le_of_lt_succ hlength) (by omega)

/-- An operation up to the end of a row does not begin like a definition. -/
theorem not_beginsDefinition
    (h : ReadsAll (fun bound => assignment bound (expression bound)) part node) :
    ¬ BeginsDefinition part := by
  have hending : (Token.atEnd default).kind = .endOfInput := rfl
  obtain ⟨target, _, htarget, hrun⟩ :=
    run_bind_eq_ok_iff.mp (h (part.length + 1) _ hending (Nat.le_succ _) (Nat.succ_pos _))
  have hlength : part.length < part.length + 1 + 1 := Nat.lt_succ_of_le (Nat.le_succ _)
  obtain ⟨rest, rfl, _, hread, _⟩ :=
    (recognizes_logical (recognizes_expression _)).sound hending hlength htarget
  refine hread.not_beginsDefinition (.of_nextKind ?_)
  obtain ⟨taken, _, haccept, hrun⟩ := run_bind_eq_ok_iff.mp hrun
  obtain ⟨equal, others, rfl, hequal, _⟩ | ⟨_, rfl, rfl⟩ :=
    (run_accept_eq_ok_iff hending (by decide)).mp haccept
  · rw [nextKind_cons, hequal]
    rfl
  · cases hrun
    rfl

theorem of_assignment (h : ReadsAll (fun bound => assignment bound (expression bound)) part node) :
    ReadsAll (fun bound => expressionWith bound (expression bound)) part node := by
  intro bound ending hending hlength hbound
  rw [run_expressionWith_of_not hending h.not_beginsDefinition]
  exact h bound ending hending hlength hbound

theorem of_logical (h : ReadsAll (fun bound => logical bound (expression bound)) part node) :
    ReadsAll (fun bound => assignment bound (expression bound)) part node := by
  intro bound ending hending hlength hbound
  beta_reduce
  have haccept : (accept .equal).run ⟨[], ending⟩ = .ok (false, ⟨[], ending⟩) :=
    (run_accept_eq_ok_iff hending (by decide)).mpr (.inr ⟨by decide, rfl, rfl⟩)
  rw [assignment, run_bind_of_ok (h bound ending hending hlength hbound), run_bind_of_ok haccept]
  rfl

/-- No operator stands at the end of a row. -/
theorem leftAssociative {operator? : Token.Kind → Option BinaryOperator}
    {operand : Nat → Parser Node} (h : ReadsAll operand part node)
    (hend : operator? .endOfInput = none) :
    ReadsAll (fun bound => Parser.leftAssociative operator? bound (operand bound)) part node := by
  intro bound ending hending hlength hbound
  beta_reduce
  rw [Parser.leftAssociative, run_bind_of_ok (h bound ending hending hlength hbound)]
  exact run_operations_of_none hending hend hbound node

/-- No operator of the level stands at the beginning of a row. -/
theorem rightAssociative {operator? : Token.Kind → Option UnaryOperator}
    {operand : Nat → Parser Node} (h : ReadsAll operand part node)
    (hnext : operator? (nextKind part) = none) :
    ReadsAll (fun bound => Parser.rightAssociative operator? (operand bound)) part node := by
  intro bound ending hending hlength hbound
  rw [run_rightAssociative, takeOperators_eq_self hnext,
    run_bind_of_ok (h bound ending hending hlength hbound)]
  rfl

theorem of_comparison (h : ReadsAll (fun bound => comparison bound (expression bound)) part node) :
    ReadsAll (fun bound => logical bound (expression bound)) part node :=
  h.leftAssociative rfl

/-- A row of sums with comparisons between them begins with no negation. -/
theorem of_compared
    (h : ReadsAll (fun bound => Parser.leftAssociative BinaryOperator.ofComparisonKind? bound
      (sum bound (expression bound))) part node) :
    ReadsAll (fun bound => comparison bound (expression bound)) part node := by
  have hending : (Token.atEnd default).kind = .endOfInput := rfl
  obtain ⟨_, _, hsum, _⟩ :=
    run_bind_eq_ok_iff.mp (h (part.length + 1) _ hending (Nat.le_succ _) (Nat.succ_pos _))
  have hlength : part.length < part.length + 1 + 1 := Nat.lt_succ_of_le (Nat.le_succ _)
  obtain ⟨_, _, _, hread, _⟩ :=
    (recognizes_sum (recognizes_expression _)).sound hending hlength hsum
  exact h.rightAssociative (ofNotKind?_eq_none hread.starts)

theorem of_sum (h : ReadsAll (fun bound => sum bound (expression bound)) part node) :
    ReadsAll (fun bound => comparison bound (expression bound)) part node :=
  of_compared (h.leftAssociative rfl)

theorem of_product (h : ReadsAll (fun bound => product bound (expression bound)) part node) :
    ReadsAll (fun bound => sum bound (expression bound)) part node :=
  h.leftAssociative rfl

theorem of_signed (h : ReadsAll (fun bound => signed bound (expression bound)) part node) :
    ReadsAll (fun bound => product bound (expression bound)) part node :=
  h.leftAssociative rfl

theorem of_operand (h : ReadsAll (fun bound => operand bound (expression bound)) part node) :
    ReadsAll (fun bound => signed bound (expression bound)) part node := by
  have hending : (Token.atEnd default).kind = .endOfInput := rfl
  have hlength : part.length < part.length + 1 + 1 := Nat.lt_succ_of_le (Nat.le_succ _)
  obtain ⟨_, _, _, hread, _⟩ := (recognizes_operand (recognizes_expression _)).sound hending
    hlength (h (part.length + 1) _ hending (Nat.le_succ _) (Nat.succ_pos _))
  exact h.rightAssociative (ofSignKind?_eq_none hread.starts)

theorem of_primary (h : ReadsAll (fun bound => primary bound (expression bound)) part node) :
    ReadsAll (fun bound => operand bound (expression bound)) part node := by
  intro bound ending hending hlength hbound
  beta_reduce
  rw [operand, run_bind_of_ok (h bound ending hending hlength hbound)]
  exact run_trailers_of_isQuiet hending rfl hbound node

end ReadsAll

/-! ## Levels -/

theorem Whole.of_assignment
    (h : ReadsAll (fun bound => assignment bound (expression bound)) part node) :
    Whole part node :=
  h.of_assignment.whole

theorem Whole.of_logical
    (h : ReadsAll (fun bound => logical bound (expression bound)) part node) : Whole part node :=
  .of_assignment h.of_logical

theorem Whole.of_comparison
    (h : ReadsAll (fun bound => comparison bound (expression bound)) part node) :
    Whole part node :=
  .of_logical h.of_comparison

theorem Whole.of_compared
    (h : ReadsAll (fun bound => leftAssociative BinaryOperator.ofComparisonKind? bound
      (sum bound (expression bound))) part node) : Whole part node :=
  .of_comparison h.of_compared

theorem Whole.of_sum (h : ReadsAll (fun bound => sum bound (expression bound)) part node) :
    Whole part node :=
  .of_comparison h.of_sum

theorem Whole.of_product (h : ReadsAll (fun bound => product bound (expression bound)) part node) :
    Whole part node :=
  .of_sum h.of_product

theorem Whole.of_signed (h : ReadsAll (fun bound => signed bound (expression bound)) part node) :
    Whole part node :=
  .of_product h.of_signed

theorem Whole.of_operand (h : ReadsAll (fun bound => operand bound (expression bound)) part node) :
    Whole part node :=
  .of_signed h.of_operand

theorem Whole.of_primary (h : ReadsAll (fun bound => primary bound (expression bound)) part node) :
    Whole part node :=
  .of_operand h.of_primary

end Script.Parser
