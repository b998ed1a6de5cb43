/-
# Operations stand where they were read

Operands with what follows them, and operators on their levels. The span of an operation
between operands begins where its left operand does, which is why each left operand must
stand where it was read, and that of an operation on one operand at the operator.
-/

import Script.Proofs.Span.Loop
import Script.Proofs.Span.Primary

namespace Script.Parser

open Grammar

variable {row : List Token} {start middle : Nat} {token : Token}

/-! ## Trailers -/

/-- What a kind of token calls for behind an object. -/
def trailer? (kind : Token.Kind) (object : Node) : Option (Nat → Parser Node) :=
  match kind with
  | .dot => some fun _ => do
    let name ← expect .identifier .expectedMemberName
    return .member (object.site.through name.span) object name.lexeme
  | .leftBracket => some fun bound => do
    let key ← spaced (expression bound)
    let closing ← expect .rightBracket .expectedRightBracket
    return .index (object.site.through closing.span) object key
  | .leftParen => some fun bound => do
    let (arguments, closing) ← items .rightParen .expectedCommaOrRightParen bound (expression bound)
    return .call (object.site.through closing.span) object arguments
  | _ => none

theorem extends_trailers :
    Extends (fun bound count object => trailers bound (expression bound) count object)
      (fun token => trailer? token.kind) where
  stops := by
    intro bound count object tokens ending hending hcount hnone
    obtain ⟨less, rfl⟩ := Nat.exists_eq_succ_of_ne_zero (Nat.ne_of_gt hcount)
    rw [Rounds.ofCount_succ, trailers, run_bind_of_ok (run_peekKind_eq hending)]
    cases tokens with
    | nil => rfl
    | cons token tokens =>
        have hnone := hnone token rfl
        rw [nextKind_cons]
        cases hkind : token.kind <;> first | rfl | (rw [hkind] at hnone; cases hnone)
  goesOn := by
    intro bound count object token tokens ending step hending hstep
    rw [Rounds.ofCount_succ, trailers, run_bind_of_ok (run_peekKind_eq hending), nextKind_cons]
    cases hkind : token.kind with
    | dot =>
        rw [hkind] at hstep
        cases hstep
        simp only [bind_assoc, pure_bind]
        rfl
    | leftBracket =>
        rw [hkind] at hstep
        cases hstep
        simp only [bind_assoc, pure_bind]
        rfl
    | leftParen =>
        rw [hkind] at hstep
        cases hstep
        simp only [bind_assoc, pure_bind]
        rfl
    | _ =>
        rw [hkind] at hstep
        cases hstep

/-- What stands behind an object makes a larger node of it. -/
theorem yields_trailer (h : Nested row (start + 1)) {object : Node} {step : Nat → Parser Node}
    (hobject : Rooted row start middle object) (hstep : trailer? token.kind object = some step) :
    Yields row (fun bound => bound) step (middle + 1) (Built row start) := by
  have hlt := hobject.covers.lt
  have hnested : Nested row (middle + 1) := h.mono (by omega)
  rw [trailer?.eq_def] at hstep
  split at hstep
  · cases hstep
    refine (yields_expect .expectedMemberName (by decide)).map _ ?_
    rintro _ name _ ⟨rfl, hname, _⟩
    exact .of_trees (hobject.covers.extend (by omega) (.of_token hname)) rfl
      (.single (Nat.le_refl _) hobject (by omega))
  · cases hstep
    refine (yields_spaced hnested).bind fun {inner key} _ hspaced => ?_
    obtain ⟨hinner, hspaced⟩ := hspaced
    refine (yields_expect .expectedRightBracket (by decide)).map _ ?_
    rintro _ closing _ ⟨rfl, hclosing, _⟩
    obtain ⟨first, last, hfirst, hkey, hlast⟩ := hspaced.exists_of_single
    exact .of_trees (hobject.covers.extend (by omega) (.of_token hclosing)) rfl
      (.cons (Nat.le_refl _) hobject (.single (by omega) hkey (by omega)))
  · cases hstep
    refine (yields_items hnested .expectedCommaOrRightParen (by decide)).map
      (fun result => Tree.call (object.site.through result.2.span) object result.1) ?_
    rintro _ ⟨arguments, closing⟩ _ ⟨last, rfl, hle, harguments, hclosing, _⟩
    exact .of_trees (hobject.covers.extend (by omega) (.of_token hclosing)) rfl
      (.cons (Nat.le_refl _) hobject
        ((harguments.mono_start (Nat.le_succ _)).mono_stop (Nat.le_succ _)))
  · cases hstep

theorem yields_operand (h : Nested row (start + 1)) :
    Yields row (fun bound => bound + 1) (fun bound => operand bound (expression bound)) start
      (Rooted row start) :=
  yields_extended extends_trailers (fun hobject _ => yields_trailer h hobject) .of_operand
    (yields_primary h)

/-! ## Operators between operands -/

section Operators

variable {binary? : Token.Kind → Option BinaryOperator}
  {unary? : Token.Kind → Option UnaryOperator} {operand : Nat → Parser Node}

/-- What a kind of token calls for behind a left operand. -/
def operation? (binary? : Token.Kind → Option BinaryOperator) (operand : Nat → Parser Node)
    (kind : Token.Kind) (left : Node) : Option (Nat → Parser Node) :=
  (binary? kind).map fun operator bound => do
    let right ← operand bound
    return .binary (left.site.through right.site) operator left right

theorem extends_operations (hend : binary? .endOfInput = none) :
    Extends (fun bound count left => operations binary? (operand bound) count left)
      (fun token => operation? binary? operand token.kind) where
  stops := by
    intro bound count left tokens ending hending hcount hnone
    refine run_operations_of_none hending ?_ hcount left
    cases tokens with
    | nil => exact hend
    | cons token tokens => exact Option.map_eq_none_iff.mp (hnone token rfl)
  goesOn := by
    intro bound count left token tokens ending step hending hstep
    obtain ⟨operator, hoperator, rfl⟩ := Option.map_eq_some_iff.mp hstep
    rw [Rounds.ofCount_succ, operations, run_bind_of_ok (run_peekKind_eq hending), nextKind_cons,
      hoperator]
    simp only [bind_assoc, pure_bind]
    rfl

theorem yields_leftAssociative (hend : binary? .endOfInput = none)
    (hoperand : ∀ place, start ≤ place →
      Yields row (fun bound => bound + 1) operand place (Rooted row place))
    (hwhole : ∀ {part node},
      ReadsAll (fun bound => leftAssociative binary? bound (operand bound)) part node →
        Whole part node) :
    Yields row (fun bound => bound + 1)
      (fun bound => leftAssociative binary? bound (operand bound)) start (Rooted row start) := by
  refine yields_extended (extends_operations hend) ?_ hwhole (hoperand start (Nat.le_refl _))
  intro middle token left step hleft htoken hstep
  obtain ⟨operator, _, rfl⟩ := Option.map_eq_some_iff.mp hstep
  have hlt := hleft.covers.lt
  have hright := (hoperand (middle + 1) (by omega)).mono fun bound => Nat.le_succ bound
  refine hright.map _ fun hle hright => ?_
  exact .of_trees (hleft.covers.extend (by omega) hright.covers.last) rfl
    (.cons (Nat.le_refl _) hleft (.single (Nat.le_succ _) hright (Nat.le_refl _)))

/-! ## Operators before an operand -/

theorem run_rightAssociative_of_none {operand : Parser Node} {tokens : List Token} {ending : Token}
    (hnext : unary? (nextKind tokens) = none) :
    (rightAssociative unary? operand).run ⟨tokens, ending⟩ = operand.run ⟨tokens, ending⟩ := by
  rw [run_rightAssociative, takeOperators_eq_self hnext]
  exact congrArg (StateT.run · _) (bind_pure operand)

theorem run_rightAssociative_cons {operand : Parser Node} {operator : UnaryOperator}
    {tokens : List Token} {ending : Token} (hoperator : unary? token.kind = some operator) :
    (rightAssociative unary? operand).run ⟨token :: tokens, ending⟩ =
      (rightAssociative unary? operand >>= fun node =>
        pure (applyOperator (operator, token.span) node)).run ⟨tokens, ending⟩ := by
  rw [run_rightAssociative, StateT.run_bind (rightAssociative unary? operand), run_rightAssociative,
    takeOperators, hoperator, StateT.run_bind, StateT.run_bind]
  cases operand.run ⟨(takeOperators unary? tokens).2, ending⟩ <;> rfl

/-- An operator takes what stands behind it on the same level. -/
theorem yields_rightAssociative {start : Nat} (hend : unary? .endOfInput = none)
    (hoperand : ∀ place, start ≤ place →
      Yields row (fun bound => bound + 1) operand place (Rooted row place))
    (hwhole : ∀ {part node},
      ReadsAll (fun bound => rightAssociative unary? (operand bound)) part node →
        Whole part node) :
    Yields row (fun bound => bound + 1) (fun bound => rightAssociative unary? (operand bound))
      start (Rooted row start) := by
  cases hnext : unary? (nextKind (row.drop start)) with
  | none =>
      refine (hoperand start (Nat.le_refl _)).of_run fun {_ cut _} _ _ _ => ?_
      obtain hkind | hkind := nextKind_between_cases row start cut
      · exact run_rightAssociative_of_none (by rw [hkind, hnext])
      · exact run_rightAssociative_of_none (by rw [hkind, hend])
  | some operator =>
      have hkind : nextKind (row.drop start) ≠ .endOfInput := fun hnone => by
        rw [hnone, hend] at hnext
        cases hnext
      obtain ⟨token, htoken, hkind⟩ := exists_getElem?_of_nextKind rfl hkind
      have hlength := lt_length_of_getElem? htoken
      have hbehind (place : Nat) (hplace : start + 1 ≤ place) := hoperand place (by omega)
      have hinner := (yields_rightAssociative hend hbehind hwhole).mono Nat.le_succ
      have hbuilt : Yields row (fun bound => bound)
          (fun bound => rightAssociative unary? (operand bound) >>= fun node =>
            pure (applyOperator (operator, token.span) node)) (start + 1) (Built row start) := by
        refine hinner.map _ fun _ hnode => ?_
        have hlt := Nat.lt_trans (Nat.lt_succ_self start) hnode.covers.lt
        exact .of_trees (.through htoken hlt hnode.covers.last) rfl
          (.single (Nat.le_succ _) hnode (Nat.le_refl _))
      refine Yields.imp (.cons htoken hbuilt fun _ _ => ?_) fun hreads hbuilt =>
        hbuilt.rooted (hwhole (.of_reads hreads (Nat.le_refl _)))
      exact run_rightAssociative_cons (hkind ▸ hnext)
termination_by row.length - start

end Operators

/-! ## Levels -/

section Level

variable (h : Nested row (start + 1))

include h

theorem yields_product :
    Yields row (fun bound => bound + 1) (fun bound => product bound (expression bound)) start
      (Rooted row start) := by
  refine yields_leftAssociative rfl (fun place hplace => ?_) .of_product
  refine yields_rightAssociative rfl (fun other hother => ?_) .of_signed
  exact yields_operand (h.mono (by omega))

theorem yields_sum :
    Yields row (fun bound => bound + 1) (fun bound => sum bound (expression bound)) start
      (Rooted row start) :=
  yields_leftAssociative rfl (fun _ hplace => yields_product (h.mono (Nat.succ_le_succ hplace)))
    .of_sum

theorem yields_comparison :
    Yields row (fun bound => bound + 1) (fun bound => comparison bound (expression bound)) start
      (Rooted row start) := by
  refine yields_rightAssociative rfl (fun place hplace => ?_) .of_comparison
  refine yields_leftAssociative rfl (fun other hother => ?_) .of_compared
  exact yields_sum (h.mono (by omega))

theorem yields_logical :
    Yields row (fun bound => bound + 1) (fun bound => logical bound (expression bound)) start
      (Rooted row start) :=
  yields_leftAssociative rfl (fun _ hplace => yields_comparison (h.mono (Nat.succ_le_succ hplace)))
    .of_logical

end Level

end Script.Parser
