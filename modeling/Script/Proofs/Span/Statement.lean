/-
# Statements and blocks stand where they were read

Given that expressions stand where they were read, so do the statements, the rows of
statements and the blocks around them.
-/

import Script.Proofs.Span.Whole

namespace Script.Parser

open Grammar

variable {row : List Token} {start middle stop least : Nat} {token : Token} {node : Node}

/-- What is read as an expression from a place on stands where it was read. -/
def Nested (row : List Token) (least : Nat) : Prop :=
  ∀ start, least ≤ start →
    Yields row (fun bound : Nat => bound) (fun bound => expression bound) start (Rooted row start)

theorem Nested.mono (h : Nested row least) (hle : least ≤ start) : Nested row start :=
  fun place hplace => h place (Nat.le_trans hle hplace)

/-! ## Statements -/

/-- What stands behind the keyword of a return. -/
theorem yields_returned (h : Nested row (start + 1)) (htoken : row[start]? = some token) :
    Yields row (fun bound => bound - 1)
      (fun bound => do
        if endsStatement (← peekKind) then return Tree.returnNothing token.span
        let value ← expression bound
        return .returnValue (token.span.through value.site) value)
      (start + 1) (Built row start) := by
  cases hends : endsStatement (nextKind (row.drop (start + 1))) with
  | true =>
      refine .peekKind_of_eq (.pure ?_) (fun _ => if_pos hends) fun _ => if_pos rfl
      exact .of_trees (.of_token htoken) rfl (.nil (Nat.le_succ _))
  | false =>
      have hvalue := (h (start + 1) (Nat.le_refl _)).mono fun bound => Nat.sub_le bound 1
      refine .peekKind ?_
      rw [hends]
      refine hvalue.map _ fun _ hvalue => ⟨hvalue.covers.lt, ?_⟩
      have hlt := Nat.lt_trans (Nat.lt_succ_self start) hvalue.covers.lt
      exact .of_trees (.through htoken hlt hvalue.covers.last) rfl
        (.single (Nat.le_succ _) hvalue (Nat.le_refl _))

/-- The token of an early exit decides what is read. -/
theorem yields_statement_of_isExit (h : Nested row (start + 1)) (htoken : row[start]? = some token)
    (hexit : isExit token.kind = true) :
    Yields row (fun bound => bound) (fun bound => statement (expression bound)) start
      (Built row start) := by
  have hbreak : Built row start (start + 1) (.breakLoop token.span) :=
    .of_trees (.of_token htoken) rfl (.nil (Nat.le_succ _))
  have hcontinue : Built row start (start + 1) (.continueLoop token.span) :=
    .of_trees (.of_token htoken) rfl (.nil (Nat.le_succ _))
  simp only [isExit, Bool.or_eq_true, decide_eq_true_eq] at hexit
  obtain (hkind | hkind) | hkind := hexit
  · refine .cons htoken (yields_returned h htoken) fun _ _ => ?_
    rw [statement, run_bind_of_ok (run_peek_cons _ _ _), hkind]
    rfl
  · refine .cons htoken (.pure hbreak) fun _ _ => ?_
    rw [statement, run_bind_of_ok (run_peek_cons _ _ _), hkind]
    rfl
  · refine .cons htoken (.pure hcontinue) fun _ _ => ?_
    rw [statement, run_bind_of_ok (run_peek_cons _ _ _), hkind]
    rfl

theorem yields_statement (h : Nested row start) :
    Yields row (fun bound => bound) (fun bound => statement (expression bound)) start
      (Rooted row start) := by
  cases hexit : isExit (nextKind (row.drop start)) with
  | false =>
      refine (h start (Nat.le_refl _)).of_run fun {_ cut _} hending _ _ => ?_
      refine run_statement_of_not_isExit hending ?_
      obtain hkind | hkind := nextKind_between_cases row start cut
      · rwa [hkind]
      · rw [hkind]
        rfl
  | true =>
      have hkind : nextKind (row.drop start) ≠ .endOfInput := fun hend => by
        rw [hend] at hexit
        cases hexit
      obtain ⟨token, htoken, hkind⟩ := exists_getElem?_of_nextKind rfl hkind
      rw [← hkind] at hexit
      exact (yields_statement_of_isExit (h.mono (Nat.le_succ _)) htoken hexit).imp
        fun hreads hbuilt => hbuilt.rooted (.of_reads hreads (Nat.le_refl _))

/-! ## Rows of statements -/

section Row

variable {close : Token.Kind}

theorem statementsBefore_of_pos (close : Token.Kind) (item : Parser Node) {count : Nat}
    (hcount : 0 < count) :
    statementsBefore close item count = (do
      skipSeparators
      if endsRow close (← peekKind) then return []
      let first ← item
      let next ← peekKind
      if endsRow close next then return [first]
      if next ≠ .separator then fail .expectedSeparator
      return first :: (← statementsBefore close item (count - 1 : Nat))) := by
  obtain ⟨less, rfl⟩ := Nat.exists_eq_succ_of_ne_zero (Nat.ne_of_gt hcount)
  rfl

/-- What stands behind a statement in a row. -/
theorem yields_others {others : Nat × Nat → Parser (List Node)} {first : Node}
    {size : Nat × Nat → Nat}
    (hothers : Yields row size others middle fun stop nodes =>
      (nextKind (row.drop middle) = .separator → middle < stop) ∧
        Lined (Rooted row) middle stop nodes)
    (hfirst : Rooted row start middle first) :
    Yields row size
      (fun i => do
        let next ← peekKind
        if endsRow close next then return [first]
        if next ≠ .separator then fail .expectedSeparator
        return first :: (← others i))
      middle (fun stop nodes => start < stop ∧ Lined (Rooted row) start stop nodes) := by
  cases hends : endsRow close (nextKind (row.drop middle)) with
  | true =>
      refine .peekKind_of_eq (.pure ?_) (fun _ => if_pos hends) fun _ => if_pos (by simp [endsRow])
      exact ⟨hfirst.covers.lt, .cons (Nat.le_refl _) hfirst (.nil (Nat.le_refl _))⟩
  | false =>
      refine .peekKind ?_
      rw [hends]
      by_cases hnext : nextKind (row.drop middle) = .separator
      · rw [hnext]
        refine hothers.map (first :: ·) fun _ hothers => ⟨hothers.1 hnext, ?_, ?_⟩
        · exact Nat.lt_trans hfirst.covers.lt (hothers.1 hnext)
        · exact .cons (Nat.le_refl _) hfirst hothers.2
      · refine Yields.of_run (.fail .expectedSeparator) fun _ _ _ => ?_
        simp only [Bool.false_eq_true, ↓reduceIte, ne_eq, hnext, not_false_eq_true]
        rfl

/-- Behind a separator a row of statements takes a token. -/
theorem yields_statementsBefore {start : Nat} (h : Nested row start) :
    Yields row (fun i : Nat × Nat => min i.1 i.2)
      (fun i => statementsBefore close (statement (expression i.1)) i.2) start
      (fun stop nodes => (nextKind (row.drop start) = .separator → start < stop) ∧
        Lined (Rooted row) start stop nodes) := by
  refine Yields.of_run ?_ fun _ _ hlength =>
    congrArg (StateT.run · _) (statementsBefore_of_pos close _ ?_)
  · refine yields_skipSeparators.bind fun {middle _} hle hlt => ?_
    cases hends : endsRow close (nextKind (row.drop middle)) with
    | true =>
        refine .peekKind_of_eq (.pure ⟨hlt, .nil hle⟩) (fun _ => if_pos hends)
          fun _ => if_pos (by simp [endsRow])
    | false =>
        refine .peekKind ?_
        rw [hends]
        have hfirst := (yields_statement (h.mono hle)).reindex Prod.fst
          fun i : Nat × Nat => Nat.min_le_left i.1 i.2
        refine hfirst.bind_shorter (fun hfirst => hfirst.covers.lt) fun {inner _} hlt hfirst => ?_
        have hlength := hfirst.covers.lt_length
        have hnested : Nested row inner := h.mono (by omega)
        have hothers := (yields_statementsBefore hnested).reindex
          (fun i : Nat × Nat => (i.1, i.2 - 1)) fun i : Nat × Nat =>
            (by omega : min i.1 i.2 - 1 ≤ min i.1 (i.2 - 1))
        refine (yields_others hothers hfirst).imp fun _ hpost => ?_
        obtain ⟨hstop, hlined⟩ := hpost
        refine ⟨hstop, fun _ => ?_, hlined.mono_start hle⟩
        exact Nat.lt_of_le_of_lt hle hstop
  · exact Nat.lt_of_lt_of_le (Nat.zero_lt_of_lt hlength) (Nat.min_le_right _ _)
termination_by row.length - start

/-- The number of tokens bounds the number of statements and how deep they nest. -/
theorem yields_statements (h : Nested row start) :
    Yields row (fun bound => bound)
      (fun bound => statementsBefore close (statement (expression bound)) bound) start
      (Lined (Rooted row) start) :=
  (yields_statementsBefore h).diagonal.imp fun _ hpost => hpost.2

/-! ## Blocks -/

/-- The span of a block does not depend on the row in it. -/
theorem block_eq (bound : Nat) (expression : Parser Node) :
    block bound expression = (do
      let opening ← expect .leftBrace .expectedLeftBrace
      let statements ← statementsBefore .rightBrace (statement expression) bound
      let closing ← expect .rightBrace .expectedRightBrace
      return .block (opening.span.through closing.span) statements) := by
  simp only [block, statementRow, bind_assoc, pure_bind]
  rfl

theorem yields_block (h : Nested row (start + 1)) :
    Yields row (fun bound => bound + 1) (fun bound => block bound (expression bound)) start
      (Rooted row start) := by
  simp only [block_eq]
  refine (yields_expect .expectedLeftBrace (by decide)).bind_shorter ?_ ?_
  · rintro _ _ ⟨rfl, _⟩
    exact Nat.lt_succ_self start
  rintro _ opening _ ⟨rfl, hopening, _⟩
  refine (yields_statements h).bind fun {middle statements} hle hlined => ?_
  refine (yields_expect .expectedRightBrace (by decide)).map _ ?_
  rintro _ closing _ ⟨rfl, hclosing, _⟩
  have hcovers : Covers row start (middle + 1) (opening.span.through closing.span) :=
    .through hopening (by omega) (.of_token hclosing)
  have hbuilt : Built row start (middle + 1)
      (.block (opening.span.through closing.span) statements) :=
    .of_trees hcovers rfl ((hlined.mono_start (Nat.le_succ _)).mono_stop (Nat.le_succ _))
  exact hbuilt.rooted_of_isBlock rfl

end Row

end Script.Parser
