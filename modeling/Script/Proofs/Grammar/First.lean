/-
# How constructs begin and what may follow them

Every construct of the grammar begins with one of a few kinds of token, and a parser
that stops behind a construct has looked at the next token only, or past separators
at the keyword of a further branch. The kinds at which a construct begins and the
rows behind which it may stop are disjoint, which is all that reading without
backtracking needs.
-/

import Script.Proofs.Grammar.Basic

namespace Script.Grammar

/-! ## The first token -/

/-- Whether an operand may begin with a kind of token. -/
def startsOperand : Token.Kind → Bool
  | .int | .long | .double | .string | .identifier | .leftParen | .leftBrace
  | .keyword .ifWord | .keyword .whileWord | .keyword .namespaceWord => true
  | _ => false

/-- Whether an operand with signs may begin with a kind of token. -/
def startsSigned (kind : Token.Kind) : Bool :=
  startsOperand kind || (UnaryOperator.ofSignKind? kind).isSome

/-- Whether an expression may begin with a kind of token. -/
def startsExpression (kind : Token.Kind) : Bool :=
  startsSigned kind || (UnaryOperator.ofNotKind? kind).isSome

/-- Whether a statement may begin with a kind of token. -/
def startsStatement (kind : Token.Kind) : Bool :=
  startsExpression kind || kind = .keyword .returnWord || kind = .keyword .breakWord ||
    kind = .keyword .continueWord

variable {tokens rest : List Token} {tree : Tree Unit}

theorem LeftAssociative.starts {operator? : Token.Kind → Option BinaryOperator}
    {read : Reading (Tree Unit)} {start : Token.Kind → Bool}
    (hread : ∀ {rest tree}, read tokens rest tree → start (nextKind tokens) = true)
    (h : LeftAssociative operator? read tokens rest tree) : start (nextKind tokens) = true := by
  obtain ⟨hfirst, _⟩ := h
  exact hread hfirst

theorem Prefixed.starts {operator? : Token.Kind → Option UnaryOperator}
    {read : Reading (Tree Unit)} {start : Token.Kind → Bool}
    (hread : ∀ {rest tree}, read tokens rest tree → start (nextKind tokens) = true)
    (h : Prefixed operator? read tokens rest tree) :
    (start (nextKind tokens) || (operator? (nextKind tokens)).isSome) = true := by
  cases h with
  | none hoperand => rw [hread hoperand, Bool.true_or]
  | more hkind _ => rw [nextKind_cons, hkind, Option.isSome_some, Bool.or_true]

theorem Primary.starts (h : Primary tokens rest tree) :
    startsOperand (nextKind tokens) = true := by
  cases h with
  | number hkind _ => rcases hkind with hkind | hkind | hkind <;> simp [hkind, startsOperand]
  | string hkind _ | identifier hkind | parenthesized hkind _ _ | list hkind _ _
  | conditional hkind _ _ _ | whileLoop hkind _ _ | namespaceDef hkind _ _ =>
      simp [hkind, startsOperand]

theorem Operand.starts (h : Operand tokens rest tree) :
    startsOperand (nextKind tokens) = true := by
  obtain ⟨hprimary, _⟩ := h
  exact hprimary.starts

theorem Product.starts (h : Product tokens rest tree) :
    startsSigned (nextKind tokens) = true := by
  obtain ⟨hproduct⟩ := h
  exact LeftAssociative.starts (fun hsigned => Prefixed.starts Operand.starts hsigned) hproduct

theorem Sum.starts (h : Sum tokens rest tree) : startsSigned (nextKind tokens) = true := by
  obtain ⟨hsum⟩ := h
  exact LeftAssociative.starts Product.starts hsum

theorem Comparison.starts (h : Comparison tokens rest tree) :
    startsExpression (nextKind tokens) = true := by
  obtain ⟨hcomparison⟩ := h
  exact Prefixed.starts (fun hsums => LeftAssociative.starts Sum.starts hsums) hcomparison

theorem Logical.starts (h : Logical tokens rest tree) :
    startsExpression (nextKind tokens) = true := by
  obtain ⟨hlogical⟩ := h
  exact LeftAssociative.starts Comparison.starts hlogical

theorem Expression.starts {place : Place} (h : Expression place tokens rest tree) :
    startsExpression (nextKind tokens) = true := by
  cases h with
  | declaration hkind _ _ _ | functionBlock hkind _ _ _ _ _ | functionValue hkind _ _ _ _ _ _ _ =>
      simp [hkind, startsExpression, startsSigned, startsOperand]
  | operation hlogical _ | assignment hlogical _ _ _ => exact hlogical.starts

theorem Statement.starts {place : Place} (h : Statement place tokens rest tree) :
    startsStatement (nextKind tokens) = true := by
  cases h with
  | returnNothing hkind _ | returnValue hkind _ | breakLoop hkind | continueLoop hkind =>
      simp [hkind, startsStatement]
  | expression hexpression => simp [startsStatement, hexpression.starts]

theorem SeparatedRow.starts {α : Type} {read : Reading α} {xs : List α}
    {start : Token.Kind → Bool}
    (hread : ∀ {rest x}, read tokens rest x → start (nextKind tokens) = true)
    (h : SeparatedRow read tokens rest xs) : start (nextKind tokens) = true := by
  cases h with
  | one hx _ | more hx _ _ _ => exact hread hx

/-! ## The tokens behind -/

/-- The tokens behind the separators at the front of a row. -/
def pastSeparators (tokens : List Token) : List Token :=
  tokens.dropWhile (·.kind = .separator)

theorem pastSeparators_cons_of_separator {token : Token} (hkind : token.kind = .separator) :
    pastSeparators (token :: tokens) = pastSeparators tokens := by
  simp [pastSeparators, hkind]

theorem pastSeparators_eq_self (hkind : nextKind tokens ≠ .separator) :
    pastSeparators tokens = tokens := by
  cases tokens with
  | nil => rfl
  | cons token tokens =>
      rw [nextKind_cons] at hkind
      rw [pastSeparators, List.dropWhile_cons_of_neg (by simpa using hkind)]

theorem nextKind_pastSeparators_ne (tokens : List Token) :
    nextKind (pastSeparators tokens) ≠ .separator := by
  induction tokens with
  | nil => simp [pastSeparators]
  | cons token tokens ih =>
      by_cases hkind : token.kind = .separator
      · rwa [pastSeparators_cons_of_separator hkind]
      · rwa [pastSeparators_eq_self (by simpa using hkind), nextKind_cons]

theorem separators_pastSeparators (tokens : List Token) :
    Separators tokens (pastSeparators tokens) := by
  induction tokens with
  | nil => exact .none
  | cons token tokens ih =>
      by_cases hkind : token.kind = .separator
      · rw [pastSeparators_cons_of_separator hkind]
        exact .more hkind ih
      · rw [pastSeparators_eq_self (by simpa using hkind)]
        exact .none

theorem Separators.pastSeparators_eq (h : Separators tokens rest) :
    pastSeparators tokens = pastSeparators rest := by
  induction h with
  | none => rfl
  | more hkind _ ih => rw [pastSeparators_cons_of_separator hkind, ih]

theorem Separators.eq_pastSeparators (h : Separators tokens rest)
    (hkind : nextKind rest ≠ .separator) : rest = pastSeparators tokens := by
  rw [h.pastSeparators_eq, pastSeparators_eq_self hkind]

/-- A row behind which no conditional and no definition can go on: a name does not
stand at its front, nor does the keyword of a further branch stand there or behind
the separators there. -/
structure Clear (rest : List Token) : Prop where
  noName : nextKind rest ≠ .identifier
  noElif : nextKind (pastSeparators rest) ≠ .keyword .elifWord
  noElse : nextKind (pastSeparators rest) ≠ .keyword .elseWord

/-- Whether every row with a kind of token at its front is clear. -/
def isClear (kind : Token.Kind) : Bool :=
  kind ≠ .identifier && kind ≠ .separator && kind ≠ .keyword .elifWord &&
    kind ≠ .keyword .elseWord

theorem Clear.of_nextKind (h : isClear (nextKind rest) = true) : Clear rest := by
  simp only [isClear, ne_eq, decide_not, Bool.and_eq_true, Bool.not_eq_true',
    decide_eq_false_iff_not] at h
  obtain ⟨⟨⟨hname, hseparator⟩, helif⟩, helse⟩ := h
  have hpast := pastSeparators_eq_self hseparator
  exact ⟨hname, by rwa [hpast], by rwa [hpast]⟩

/-- A row of separators is as clear as what stands behind them. -/
theorem Clear.of_separators (h : Separators tokens rest) (hrest : Clear rest) :
    Clear tokens := by
  have hpast := h.pastSeparators_eq
  refine ⟨?_, by rw [hpast]; exact hrest.noElif, by rw [hpast]; exact hrest.noElse⟩
  cases h with
  | none => exact hrest.noName
  | more hkind _ => simp [hkind]

/-- Something, and behind it a row that begins with a separator, are a row. -/
theorem SeparatedRow.of_row {α : Type} {read : Reading α} {middle : List Token} {x : α}
    {xs : List α}
    (hstart : ∀ {tokens rest x}, read tokens rest x → nextKind tokens ≠ .separator)
    (hx : read tokens middle x) (hseparator : nextKind middle = .separator)
    (hrow : Row read middle rest xs) : SeparatedRow read tokens rest (x :: xs) := by
  cases middle with
  | nil => cases hseparator
  | cons separator middle =>
      cases hrow with
      | none hseparators => exact .one hx hseparators
      | some hseparators hxs =>
          cases hseparators with
          | none =>
              have hnext : nextKind (separator :: middle) ≠ .separator := by
                cases hxs with
                | one hfirst _ | more hfirst _ _ _ => exact hstart hfirst
              exact absurd hseparator hnext
          | more _ hseparators => exact .more hx hseparator hseparators hxs

end Script.Grammar
