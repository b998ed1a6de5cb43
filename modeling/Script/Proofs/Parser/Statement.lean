/-
# Statements and blocks are read steadily

Given a family of steady parsers of expressions, the parsers of statements, of rows of
statements and of blocks are steady. What stands in front of a closing brace or of the end
can be completed by nothing else, a missing expression by a name.
-/

import Script.Proofs.Grammar.Statement
import Script.Proofs.Parser.Primitive

namespace Script.Parser

open Grammar

/-- Whether a kind of token can stand behind an expression and never belongs to it. -/
def isQuiet : Token.Kind → Bool
  | .rightParen | .rightBracket | .rightBrace | .leftBrace | .endOfInput => true
  | _ => false

theorem isPlain_of_isQuiet (kind : Token.Kind) (h : isQuiet kind = true) :
    isPlain kind = true := by
  cases kind <;> first | rfl | cases h

instance : Nonempty Token := ⟨.atEnd default⟩

instance : Nonempty Node := ⟨.breakLoop default⟩

variable {ι : Type} {limit : Nat} {size bound : ι → Nat} {expression : ι → Parser Node}
  {name : Token}

/-! ## Statements -/

section Statement

variable (hname : name.kind = .identifier)
  (hexpression : Steady limit size expression (isQuiet ·) 1 [name])

include hname hexpression

/-- What stands behind the keyword of a return. -/
theorem steady_returned (site : Span) :
    Steady limit size
      (fun i => do
        if endsStatement (← peekKind) then return Tree.returnNothing site
        let value ← expression i
        return Tree.returnValue (site.through value.site) value)
      (isQuiet ·) 0 [name] := by
  have hvalue := hexpression.map (fun value => Tree.returnValue (site.through value.site) value)
    isPlain_of_isQuiet
  refine ⟨fun tokens htokens => .peekKind ?_, .peekKind .identifier ?_ fun _ _ => hname,
    Nat.zero_le _⟩
  · split
    · exact .pure _ tokens
    · exact (hvalue.steadyAt tokens htokens).atLeast (Nat.zero_le 1)
  · exact hvalue.completes

/-- The token of an early exit decides what is read. -/
theorem steadyAt_statement_of_isExit {token : Token} {tokens : List Token}
    (hexit : isExit token.kind = true) (htokens : Within limit (token :: tokens)) :
    SteadyAt size (fun i => statement (expression i)) (isQuiet ·) 1 (token :: tokens) := by
  simp only [isExit, Bool.or_eq_true, decide_eq_true_eq] at hexit
  obtain (hkind | hkind) | hkind := hexit
  · refine .cons (fun i row ending hending => ?_) (steady_returned hname hexpression token.span)
      htokens
    rw [statement, run_bind_of_ok (run_peek_cons _ _ _), hkind]
    rfl
  · refine .cons (fun i row ending hending => ?_)
      (@Steady.pure _ _ size _ _ (.breakLoop token.span) isPlain_of_isQuiet) htokens
    rw [statement, run_bind_of_ok (run_peek_cons _ _ _), hkind]
    rfl
  · refine .cons (fun i row ending hending => ?_)
      (@Steady.pure _ _ size _ _ (.continueLoop token.span) isPlain_of_isQuiet) htokens
    rw [statement, run_bind_of_ok (run_peek_cons _ _ _), hkind]
    rfl

theorem steady_statement :
    Steady limit size (fun i => statement (expression i)) (isQuiet ·) 1 [name] where
  steadyAt tokens htokens := by
    cases hexit : isExit (nextKind tokens) with
    | false =>
        refine (hexpression.steadyAt tokens htokens).of_run fun i row ending hending _ hhead => ?_
        rw [← nextKind_eq_of_head? hhead] at hexit
        exact run_statement_of_not_isExit hending hexit
    | true =>
        obtain _ | ⟨token, tokens⟩ := tokens
        · cases hexit
        exact steadyAt_statement_of_isExit hname hexpression hexit htokens
  completes := by
    refine ⟨hexpression.completes.noEnding, hexpression.completes.plain, fun rest hrest => ?_⟩
    refine (hexpression.completes.accepts rest hrest).of_run fun i ending hending _ => ?_
    refine run_statement_of_not_isExit hending ?_
    rw [List.nil_append, List.cons_append, nextKind_cons, hname]
    rfl
  least_le := Nat.le_refl 1

end Statement

/-! ## Rows of statements -/

section Row

variable {close : Token.Kind} {item : ι → Parser Node} {count : ι → Nat}

theorem isQuiet_of_closesRow (h : ClosesRow close) :
    ∀ kind, kind = close → isQuiet kind = true := by
  rintro kind rfl
  rcases h with rfl | rfl <;> rfl

theorem isPlain_of_closesRow (h : ClosesRow close) : ∀ kind, kind = close → isPlain kind = true :=
  fun kind hkind => isPlain_of_isQuiet kind (isQuiet_of_closesRow h kind hkind)

theorem endsRow_self (close : Token.Kind) : endsRow close close = true := by
  rw [endsRow, decide_eq_true rfl, Bool.true_or]

/-- What stands behind a statement in a row, and what the row goes on with. -/
theorem steady_others (hclose : ClosesRow close) {others : ι → Parser (List Node)}
    (hothers : Steady limit size others (· = close) 0 []) (first : Node) :
    Steady limit size
      (fun i => do
        let next ← peekKind
        if endsRow close next then return [first]
        if next ≠ .separator then fail .expectedSeparator
        return first :: (← others i))
      (· = close) 0 [] := by
  refine ⟨fun tokens htokens => .peekKind ?_, .peekKind close ?_ fun _ => id,
    Nat.le_refl 0⟩
  · split
    · exact .pure _ tokens
    · split
      · exact (SteadyAt.fail .expectedSeparator tokens).of_run fun _ _ _ _ _ _ => rfl
      · exact (hothers.map (first :: ·) (isPlain_of_closesRow hclose)).steadyAt tokens htokens
  · simp only [endsRow_self, ↓reduceIte]
    exact .nil (isPlain_of_closesRow hclose) fun _ _ _ _ _ _ => ⟨[first], rfl⟩

/-- A row of statements behind its first separators. -/
theorem steady_statements (hclose : ClosesRow close) {others : ι → Parser (List Node)}
    (hitem : Steady (limit + 1) size item (isQuiet ·) 1 [name])
    (hothers : Steady limit (fun i => size i - 1) others (· = close) 0 []) :
    Steady (limit + 1) size
      (fun i => do
        if endsRow close (← peekKind) then return []
        let first ← item i
        let next ← peekKind
        if endsRow close next then return [first]
        if next ≠ .separator then fail .expectedSeparator
        return first :: (← others i))
      (· = close) 0 [] := by
  refine ⟨fun tokens htokens => .peekKind ?_, .peekKind close ?_ fun _ => id,
    Nat.le_refl 0⟩
  · split
    · exact .pure _ tokens
    · have hrow := hitem.bind_shorter (steady_others hclose hothers)
        fun _ hrest => isQuiet_of_closesRow hclose _ hrest
      exact (hrow.steadyAt tokens htokens).atLeast (Nat.zero_le 1)
  · simp only [endsRow_self, ↓reduceIte]
    exact .nil (isPlain_of_closesRow hclose) fun _ _ _ _ _ _ => ⟨[], rfl⟩

theorem run_statementsBefore_of_endsRow {tokens : List Token} {ending : Token}
    {parser : Parser Node} (hclose : ClosesRow close) (hending : ending.kind = .endOfInput)
    (hends : endsRow close (nextKind tokens) = true) {count : Nat} (hcount : 0 < count) :
    (statementsBefore close parser count).run ⟨tokens, ending⟩ = .ok ([], ⟨tokens, ending⟩) := by
  obtain ⟨less, rfl⟩ := Nat.exists_eq_succ_of_ne_zero (Nat.ne_of_gt hcount)
  have hplain := isPlain_of_closesRow (hclose.of_endsRow hends) _ rfl
  have hpast := pastSeparators_eq_self (ne_separator_of_isPlain hplain)
  rw [Rounds.ofCount_succ, statementsBefore, run_bind_of_ok (run_skipSeparators _ _), hpast,
    run_bind_of_ok (run_peekKind_eq hending), if_pos hends]
  rfl

theorem completes_statementsBefore (hclose : ClosesRow close) (hcount : ∀ i, size i ≤ count i) :
    Completes size (fun i => statementsBefore close (item i) (count i)) (· = close) [] [] :=
  .nil (isPlain_of_closesRow hclose) fun i _ _ hpos hnext hending =>
    ⟨_, run_statementsBefore_of_endsRow hclose hending (hnext ▸ endsRow_self close)
      (Nat.lt_of_lt_of_le hpos (hcount i))⟩

theorem steady_statementsBefore (hclose : ClosesRow close)
    (hitem : Steady limit size item (isQuiet ·) 1 [name]) (hcount : ∀ i, size i ≤ count i) :
    Steady limit size (fun i => statementsBefore close (item i) (count i)) (· = close) 0 [] := by
  induction limit generalizing size count with
  | zero => exact .zero (completes_statementsBefore hclose hcount) (Nat.le_refl 0)
  | succ limit ih =>
      have hless (i : ι) := Nat.sub_le_sub_right (hcount i) 1
      have hothers := ih hitem.shorter hless
      refine .of_count (fun i => statementsBefore close (item i)) ⟨fun tokens htokens => ?_,
        completes_statementsBefore hclose fun i => Nat.le_add_of_sub_le (hless i),
        Nat.le_refl 0⟩ hcount
      exact (Steady.skipSeparators.bind (fun _ => steady_statements hclose hitem hothers)
        fun _ hrest => isPlain_of_closesRow hclose _ hrest).steadyAt tokens htokens

end Row

section Block

variable {close : Token.Kind} (hname : name.kind = .identifier)
  (hexpression : Steady limit size expression (isQuiet ·) 1 [name])
  (hbound : ∀ i, size i ≤ bound i)

include hname hexpression hbound

theorem steady_statementRow (hclose : ClosesRow close) :
    Steady limit size (fun i => statementRow close (bound i) (expression i)) (· = close) 0 [] := by
  have hstatements := steady_statementsBefore hclose (steady_statement hname hexpression) hbound
  have hrow (first : Token) :=
    hstatements.map (fun statements => Tree.block (rowSpan first statements) statements)
      (isPlain_of_closesRow hclose)
  exact .peek hrow

/-- A block ends with its brace, so anything may follow it. -/
theorem steady_block :
    Steady limit size (fun i => block (bound i) (expression i)) (isPlain ·) 1
      [mark .leftBrace, mark .rightBrace] := by
  have hopening := @Steady.expect _ size limit .leftBrace .expectedLeftBrace (by decide) rfl
  have hclosing := @Steady.expect _ size limit .rightBrace .expectedRightBrace (by decide) rfl
  have hrow := steady_statementRow hname hexpression hbound (.inl rfl)
  have hbody (opening : Token) := hrow.bind (fun body => hclosing.map
    (fun closing => body.withSite (opening.span.through closing.span)) fun _ => id) fun _ _ => rfl
  exact (hopening.bind hbody fun _ _ => rfl).atLeast (Nat.le_add_right 1 _)

end Block

end Script.Parser
