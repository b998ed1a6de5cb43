/-
# Statements and blocks are recognized

Given a parser that recognizes expressions, the parsers of statements, of rows of
statements and of blocks recognize theirs. A row of statements ends at its closing
token, or at the end of all tokens; neither begins a statement, and neither is a
separator.
-/

import Script.Proofs.Grammar.Combination

namespace Script.Grammar

open Script.Parser

/-- What is asked of the tokens behind an expression that is enclosed. -/
def EndsExpression (rest : List Token) : Prop := carriesOn (nextKind rest) = false

variable {bound : Nat} {ending : Token} {tokens : List Token} {expression : Parser Node}

/-! ## Statements -/

theorem endsStatement_eq_true_iff :
    endsStatement (nextKind tokens) = true ↔ EndsStatement tokens := by
  rw [EndsStatement]
  cases nextKind tokens <;> simp [endsStatement]

theorem EndsStatement.endsExpression (h : EndsStatement tokens) : EndsExpression tokens := by
  rw [EndsExpression]
  rcases h with h | h | h <;> rw [h] <;> rfl

theorem not_endsStatement_of_starts (h : startsExpression (nextKind tokens) = true) :
    endsStatement (nextKind tokens) = false := by
  cases hkind : nextKind tokens with
  | separator | rightBrace | endOfInput =>
      rw [hkind] at h
      cases h
  | _ => rfl

/-- Whether a token is the keyword of an early exit. -/
def isExit (kind : Token.Kind) : Bool :=
  kind = .keyword .returnWord || kind = .keyword .breakWord || kind = .keyword .continueWord

theorem isExit_eq_false_of_starts {kind : Token.Kind} (h : startsExpression kind = true) :
    isExit kind = false := by
  cases kind with
  | keyword word => cases word <;> first | rfl | cases h
  | _ => rfl

theorem run_statement_of_not_isExit (hending : ending.kind = .endOfInput)
    (hexit : isExit (nextKind tokens) = false) :
    (statement expression).run ⟨tokens, ending⟩ = expression.run ⟨tokens, ending⟩ := by
  have hpeek : peek.run ⟨tokens, ending⟩ =
      .ok ((TokenStream.mk tokens ending).peek, ⟨tokens, ending⟩) := rfl
  rw [statement, run_bind_of_ok hpeek]
  rw [← TokenStream.peek_kind hending] at hexit
  split
  · next hkind => simp [hkind, isExit] at hexit
  · next hkind => simp [hkind, isExit] at hexit
  · next hkind => simp [hkind, isExit] at hexit
  · rfl

/-- The token of an early exit tells which one it is. -/
theorem sound_statement_of_isExit {token : Token}
    (hexpression : RecognizesPlaced bound expression Expression EndsExpression)
    (hending : ending.kind = .endOfInput) (hlength : tokens.length < bound)
    (hexit : isExit token.kind = true) {node : Node} {after : TokenStream}
    (hrun : (statement expression).run ⟨token :: tokens, ending⟩ = .ok (node, after)) :
    ∃ rest, after = ⟨rest, ending⟩ ∧ Behind rest (token :: tokens) ∧
      ∀ place, Statement place (token :: tokens) rest node.shape := by
  have hbehind := Behind.of_cons token tokens
  rw [statement, run_bind_of_ok (run_peek_cons _ _ _)] at hrun
  split at hrun
  · next hkind =>
    rw [run_bind_of_ok (run_advance_cons _ _ _), run_bind_of_ok (run_peekKind_eq hending)] at hrun
    split at hrun
    · next hends =>
      cases hrun
      refine ⟨tokens, rfl, hbehind, fun place => .returnNothing hkind ?_⟩
      cases place with
      | enclosed => trivial
      | branch => exact endsStatement_eq_true_iff.mp hends
    · obtain ⟨value, _, hvalue, hpure⟩ := run_bind_eq_ok_iff.mp hrun
      obtain ⟨rest, rfl, hrest, hread⟩ := hexpression.sound hending hlength hvalue
      cases hpure
      exact ⟨rest, rfl, hbehind.trans hrest, fun place => .returnValue hkind (hread place)⟩
  · next hkind =>
    cases hrun
    exact ⟨tokens, rfl, hbehind, fun _ => .breakLoop hkind⟩
  · next hkind =>
    cases hrun
    exact ⟨tokens, rfl, hbehind, fun _ => .continueLoop hkind⟩
  · next hreturn hbreak hcontinue =>
    simp only [isExit, Bool.or_eq_true, decide_eq_true_eq] at hexit
    exact (hexit.elim (Or.elim · hreturn hbreak) hcontinue).elim

theorem recognizes_statement
    (hexpression : RecognizesPlaced bound expression Expression EndsExpression) :
    RecognizesPlaced bound (statement expression) Statement EndsStatement where
  sound := by
    intro ending tokens node after hending hlength hrun
    cases hexit : isExit (nextKind tokens) with
    | false =>
        rw [run_statement_of_not_isExit hending hexit] at hrun
        obtain ⟨rest, hafter, hbehind, hread⟩ := hexpression.sound hending hlength hrun
        exact ⟨rest, hafter, hbehind, fun place => .expression (hread place)⟩
    | true =>
        cases tokens with
        | nil => cases hexit
        | cons token tokens =>
            rw [List.length_cons] at hlength
            exact sound_statement_of_isExit hexpression hending (by omega) hexit hrun
  complete := by
    intro ending place tokens rest tree hending hlength hread hclear hends
    cases hread with
    | @returnNothing _ token _ hkind hplace =>
        have hstop : endsStatement (nextKind rest) = true := by
          rw [endsStatement_eq_true_iff]
          cases place with
          | enclosed => exact hends rfl
          | branch => exact hplace
        refine ⟨.returnNothing token.span, ?_, rfl⟩
        rw [statement, run_bind_of_ok (run_peek_cons _ _ _), hkind]
        dsimp only
        rw [run_bind_of_ok (run_advance_cons _ _ _), run_bind_of_ok (run_peekKind_eq hending),
          if_pos hstop]
        rfl
    | @returnValue _ token tokens _ value hkind hvalue =>
        rw [List.length_cons] at hlength
        obtain ⟨node, hnode, rfl⟩ := hexpression.complete hending (by omega) hvalue hclear
          fun henclosed => (hends henclosed).endsExpression
        refine ⟨.returnValue (token.span.through node.site) node, ?_, rfl⟩
        rw [statement, run_bind_of_ok (run_peek_cons _ _ _), hkind]
        dsimp only
        rw [run_bind_of_ok (run_advance_cons _ _ _), run_bind_of_ok (run_peekKind_eq hending),
          not_endsStatement_of_starts hvalue.starts, if_neg Bool.false_ne_true,
          run_bind_of_ok hnode]
        rfl
    | @breakLoop _ token _ hkind =>
        refine ⟨.breakLoop token.span, ?_, rfl⟩
        rw [statement, run_bind_of_ok (run_peek_cons _ _ _), hkind]
        rfl
    | @continueLoop _ token _ hkind =>
        refine ⟨.continueLoop token.span, ?_, rfl⟩
        rw [statement, run_bind_of_ok (run_peek_cons _ _ _), hkind]
        rfl
    | expression hexpr =>
        obtain ⟨node, hnode, hshape⟩ := hexpression.complete hending hlength hexpr hclear
          fun henclosed => (hends henclosed).endsExpression
        refine ⟨node, ?_, hshape⟩
        rw [run_statement_of_not_isExit hending (isExit_eq_false_of_starts hexpr.starts), hnode]

/-! ## Rows of statements -/

/-- Whether a token closes a row of statements, in a program or in a block. -/
def ClosesRow (close : Token.Kind) : Prop := close = .rightBrace ∨ close = .endOfInput

variable {close : Token.Kind} {item : Parser Node}

theorem ClosesRow.of_endsRow (hclose : ClosesRow close) {kind : Token.Kind}
    (h : endsRow close kind = true) : ClosesRow kind := by
  simp only [endsRow, Bool.or_eq_true, decide_eq_true_eq] at h
  rcases h with rfl | rfl
  · exact hclose
  · exact .inr rfl

theorem ClosesRow.endsStatement (h : ClosesRow (nextKind tokens)) : EndsStatement tokens :=
  .inr h

theorem ClosesRow.clear (h : ClosesRow (nextKind tokens)) : Clear tokens := by
  apply Clear.of_nextKind
  rcases h with h | h <;> rw [h] <;> rfl

theorem ClosesRow.not_starts {kind : Token.Kind} (h : ClosesRow kind) :
    startsStatement kind = false := by
  rcases h with rfl | rfl <;> rfl

theorem startsStatement_ne_separator {kind : Token.Kind} (h : startsStatement kind = true) :
    kind ≠ .separator := by
  rintro rfl
  cases h

theorem clear_of_starts_statement {separator : Token} {first rest : List Token}
    (hkind : separator.kind = .separator) (h : Separators rest first)
    (hstart : startsStatement (nextKind first) = true) : Clear (separator :: rest) := by
  have hpast := (Separators.more hkind h).eq_pastSeparators (startsStatement_ne_separator hstart)
  refine ⟨by simp [hkind], ?_, ?_⟩ <;>
  · rw [← hpast]
    intro hnext
    rw [hnext] at hstart
    cases hstart

theorem sound_statementsBefore (hitem : RecognizesPlaced bound item Statement EndsStatement)
    (hending : ending.kind = .endOfInput) {count : Nat}
    (hcount : count ≤ bound) :
    ∀ {tokens : List Token} {nodes : List Node} {after : TokenStream}, tokens.length < count →
      (statementsBefore close item count).run ⟨tokens, ending⟩ = .ok (nodes, after) →
      ∃ rest, after = ⟨rest, ending⟩ ∧ rest <:+ tokens ∧ endsRow close (nextKind rest) = true ∧
        Row (Statement .enclosed) tokens rest (nodes.map Tree.shape) := by
  induction count with
  | zero =>
      intro tokens nodes after hlength
      exact absurd hlength (Nat.not_lt_zero _)
  | succ count ih =>
      intro tokens nodes after hlength hrun
      have hsuffix := pastSeparators_suffix tokens
      have hseparators := separators_pastSeparators tokens
      have hshort := hsuffix.length_le
      rw [Rounds.ofCount_succ, statementsBefore, run_bind_of_ok (run_skipSeparators _ _),
        run_bind_of_ok (run_peekKind_eq hending)] at hrun
      split at hrun
      · next hends =>
        cases hrun
        exact ⟨_, rfl, hsuffix, hends, .none hseparators⟩
      · obtain ⟨first, _, hfirst, hrun⟩ := run_bind_eq_ok_iff.mp hrun
        obtain ⟨middle, rfl, hbehind, hread⟩ := hitem.sound hending (by omega) hfirst
        have hmiddle := hbehind.1.trans hsuffix
        have hless := hbehind.2
        rw [run_bind_of_ok (run_peekKind_eq hending)] at hrun
        split at hrun
        · next hends =>
          cases hrun
          exact ⟨middle, rfl, hmiddle, hends,
            .some hseparators (.one (hread .enclosed) .none)⟩
        · split at hrun
          · obtain ⟨_, _, hfail, _⟩ := run_bind_eq_ok_iff.mp hrun
            exact absurd hfail run_fail_ne_ok
          · next hseparator =>
            obtain ⟨others, _, hothers, hpure⟩ := run_bind_eq_ok_iff.mp hrun
            obtain ⟨rest, rfl, hrest, hcloses, hrow⟩ := ih (by omega) (by omega) hothers
            cases hpure
            refine ⟨rest, rfl, hrest.trans hmiddle, hcloses, .some hseparators ?_⟩
            exact .of_row (fun h => startsStatement_ne_separator h.starts) (hread .enclosed)
              (Decidable.not_not.mp hseparator) hrow

theorem not_endsRow_of_starts (hclose : ClosesRow close) {kind : Token.Kind}
    (hstart : startsStatement kind = true) : ¬ endsRow close kind = true := by
  intro hends
  rw [(hclose.of_endsRow hends).not_starts] at hstart
  cases hstart

/-- A row of statements goes on behind a separator. -/
theorem run_statementsBefore_of_separator (hclose : ClosesRow close)
    (hending : ending.kind = .endOfInput) {count : Nat} {first middle : List Token}
    {separator : Token} {node : Node} {others : List Node} {after : TokenStream}
    (hpast : first = pastSeparators tokens) (hstart : startsStatement (nextKind first) = true)
    (hkind : separator.kind = .separator)
    (hnode : item.run ⟨first, ending⟩ = .ok (node, ⟨separator :: middle, ending⟩))
    (hothers : (statementsBefore close item count).run ⟨separator :: middle, ending⟩ =
      .ok (others, after)) :
    (statementsBefore close item (count + 1 : Nat)).run ⟨tokens, ending⟩ =
      .ok (node :: others, after) := by
  have hends : ¬ endsRow close (nextKind (separator :: middle)) = true := by
    rw [nextKind_cons, hkind]
    intro h
    rcases hclose.of_endsRow h with h | h <;> cases h
  have hnext : ¬ nextKind (separator :: middle) ≠ .separator := not_not_intro hkind
  rw [Rounds.ofCount_succ, statementsBefore, run_bind_of_ok (run_skipSeparators _ _),
    run_bind_of_ok (run_peekKind_eq hending), ← hpast,
    if_neg (not_endsRow_of_starts hclose hstart), run_bind_of_ok hnode,
    run_bind_of_ok (run_peekKind_eq hending), if_neg hends, if_neg hnext, run_bind_of_ok hothers]
  rfl

theorem complete_statementsBefore (hitem : RecognizesPlaced bound item Statement EndsStatement)
    (hclose : ClosesRow close) (hending : ending.kind = .endOfInput) {count : Nat}
    (hcount : count ≤ bound) :
    ∀ {tokens rest : List Token} {trees : List (Tree Unit)}, tokens.length < count →
      Row (Statement .enclosed) tokens rest trees → endsRow close (nextKind rest) = true →
      ∃ nodes, (statementsBefore close item count).run ⟨tokens, ending⟩ =
        .ok (nodes, ⟨rest, ending⟩) ∧ nodes.map Tree.shape = trees := by
  have hstarts {tokens rest tree} (h : Statement .enclosed tokens rest tree) := h.starts
  induction count with
  | zero =>
      intro tokens rest trees hlength
      exact absurd hlength (Nat.not_lt_zero _)
  | succ count ih =>
      intro tokens rest trees hlength hrow hends
      have hcloses := hclose.of_endsRow hends
      have hshort := (pastSeparators_suffix tokens).length_le
      cases hrow with
      | none hseparators =>
          have hpast := hseparators.eq_pastSeparators (by rcases hcloses with h | h <;> simp [h])
          rw [Rounds.ofCount_succ, statementsBefore, run_bind_of_ok (run_skipSeparators _ _),
            run_bind_of_ok (run_peekKind_eq hending), ← hpast, if_pos hends]
          exact ⟨[], rfl, rfl⟩
      | @some _ first _ _ hseparators hrow =>
          have hstart := hrow.starts hstarts
          have hpast := hseparators.eq_pastSeparators (startsStatement_ne_separator hstart)
          rw [← hpast] at hshort
          cases hrow with
          | @one _ middle _ tree hread hbehind =>
              have hclear := Clear.of_separators hbehind hcloses.clear
              cases hbehind with
              | none =>
                  obtain ⟨node, hnode, rfl⟩ := hitem.complete hending (by omega) hread hclear
                    fun _ => hcloses.endsStatement
                  refine ⟨[node], ?_, rfl⟩
                  rw [Rounds.ofCount_succ, statementsBefore,
                    run_bind_of_ok (run_skipSeparators _ _),
                    run_bind_of_ok (run_peekKind_eq hending), ← hpast,
                    if_neg (not_endsRow_of_starts hclose hstart), run_bind_of_ok hnode,
                    run_bind_of_ok (run_peekKind_eq hending), if_pos hends]
                  rfl
              | @more separator middle _ hkind hbehind =>
                  have hstop := And.intro hclear (.inl hkind : EndsStatement (separator :: middle))
                  obtain ⟨node, hnode, rfl⟩ :=
                    hitem.complete hending (by omega) hread hstop.1 fun _ => hstop.2
                  have hless := (hitem.enclosed.behind (by omega) hread hstop).2
                  obtain ⟨others, hothers, hshapes⟩ :=
                    ih (by omega) (by omega) (.none (.more hkind hbehind)) hends
                  refine ⟨node :: others, run_statementsBefore_of_separator hclose hending hpast
                    hstart hkind hnode hothers, ?_⟩
                  rw [List.map_cons, hshapes]
          | @more _ middle next _ separator tree others hread hkind hbehind hrow =>
              have hclear := clear_of_starts_statement hkind hbehind (hrow.starts hstarts)
              have hstop := And.intro hclear (.inl hkind : EndsStatement (separator :: middle))
              obtain ⟨node, hnode, rfl⟩ :=
                hitem.complete hending (by omega) hread hstop.1 fun _ => hstop.2
              have hless := (hitem.enclosed.behind (by omega) hread hstop).2
              obtain ⟨others, hothers, rfl⟩ :=
                ih (by omega) (by omega) (.some (.more hkind hbehind) hrow) hends
              exact ⟨node :: others, run_statementsBefore_of_separator hclose hending hpast hstart
                hkind hnode hothers, rfl⟩

theorem sound_statementRow
    (hexpression : RecognizesPlaced bound expression Expression EndsExpression)
    (hending : ending.kind = .endOfInput) (hlength : tokens.length < bound) {node : Node}
    {after : TokenStream}
    (hrun : (statementRow close bound expression).run ⟨tokens, ending⟩ = .ok (node, after)) :
    ∃ rest trees, after = ⟨rest, ending⟩ ∧ rest <:+ tokens ∧
      endsRow close (nextKind rest) = true ∧ node.shape = .block () trees ∧
      Row (Statement .enclosed) tokens rest trees := by
  obtain ⟨first, _, hfirst, hrun⟩ := run_bind_eq_ok_iff.mp hrun
  cases hfirst
  obtain ⟨nodes, _, hnodes, hpure⟩ := run_bind_eq_ok_iff.mp hrun
  obtain ⟨rest, rfl, hsuffix, hcloses, hrow⟩ := sound_statementsBefore
    (recognizes_statement hexpression) hending (Nat.le_refl _) hlength hnodes
  cases hpure
  refine ⟨rest, nodes.map Tree.shape, rfl, hsuffix, hcloses, ?_, hrow⟩
  rw [Tree.shape, Tree.shapeEach_eq_map]

theorem complete_statementRow
    (hexpression : RecognizesPlaced bound expression Expression EndsExpression)
    (hclose : ClosesRow close) (hending : ending.kind = .endOfInput)
    (hlength : tokens.length < bound) {rest : List Token} {trees : List (Tree Unit)}
    (hrow : Row (Statement .enclosed) tokens rest trees)
    (hends : endsRow close (nextKind rest) = true) :
    ∃ node, (statementRow close bound expression).run ⟨tokens, ending⟩ =
      .ok (node, ⟨rest, ending⟩) ∧ node.shape = .block () trees := by
  obtain ⟨nodes, hnodes, rfl⟩ := complete_statementsBefore
    (recognizes_statement hexpression) hclose hending (Nat.le_refl _) hlength hrow hends
  let first := (TokenStream.mk tokens ending).peek
  have hpeek : peek.run ⟨tokens, ending⟩ = .ok (first, ⟨tokens, ending⟩) := rfl
  refine ⟨.block (rowSpan first nodes) nodes, ?_, ?_⟩
  · rw [statementRow, run_bind_of_ok hpeek, run_bind_of_ok hnodes]
    rfl
  · rw [Tree.shape, Tree.shapeEach_eq_map]

/-! ## Blocks -/

theorem recognizes_block
    (hexpression : RecognizesPlaced bound expression Expression EndsExpression) :
    Recognizes (bound + 1) (block bound expression) Tree.shape Block fun _ => True where
  sound := by
    intro ending tokens node after hending hlength hrun
    obtain ⟨opening, _, hopening, hrun⟩ := run_bind_eq_ok_iff.mp hrun
    obtain ⟨inner, rfl, hkind, rfl⟩ := (run_expect_eq_ok_iff hending (by decide)).mp hopening
    rw [List.length_cons] at hlength
    obtain ⟨body, _, hbody, hrun⟩ := run_bind_eq_ok_iff.mp hrun
    obtain ⟨closing, _, hclosing, hpure⟩ := run_bind_eq_ok_iff.mp hrun
    cases hpure
    obtain ⟨middle, trees, rfl, hsuffix, _, hshape, hrow⟩ :=
      sound_statementRow hexpression hending (by omega) hbody
    obtain ⟨rest, rfl, hclose, rfl⟩ := (run_expect_eq_ok_iff hending (by decide)).mp hclosing
    have hbehind := (Behind.of_cons opening inner).trans_suffix hsuffix
    refine ⟨rest, rfl, hbehind.trans (.of_cons closing rest), ?_⟩
    rw [Tree.shape_withSite, hshape]
    exact .intro hkind hrow hclose
  complete := by
    intro ending tokens rest tree hending hlength hread _
    cases hread with
    | @intro opening closing inner _ trees hkind hrow hclose =>
        rw [List.length_cons] at hlength
        have hends : endsRow .rightBrace (nextKind (closing :: rest)) = true := by
          rw [nextKind_cons, hclose]
          rfl
        obtain ⟨body, hbody, hshape⟩ :=
          complete_statementRow hexpression (.inl rfl) hending (by omega) hrow hends
        refine ⟨body.withSite (opening.span.through closing.span), ?_, ?_⟩
        · rw [block, run_bind_of_ok (run_expect_cons hkind), run_bind_of_ok hbody,
            run_bind_of_ok (run_expect_cons hclose)]
          rfl
        · rw [Tree.shape_withSite, hshape]

end Script.Grammar
