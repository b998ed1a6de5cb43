/-
# Programs one behind the other

A reading looks at no more than what tokens are, and behind the tokens that it takes only
at the next one. So it stays a reading when the tokens stand elsewhere, and when a
separator and further tokens are put behind the row. Hence two programs with a separator
in between are a program: that of the statements of the one and then the other.
-/

import Script.Proofs.Grammar.Combination

namespace Script.Grammar

variable {α : Type} {move : Token → Token} {behind : List Token}

/-- A change of tokens that keeps what they are, and tokens that may be put behind a row:
none, or some that begin with a separator. -/
structure Extends (move : Token → Token) (behind : List Token) : Prop where
  kind : ∀ token, (move token).kind = token.kind
  lexeme : ∀ token, (move token).lexeme = token.lexeme
  literal : ∀ token, (move token).literal = token.literal
  behind : behind = [] ∨ nextKind behind = .separator

/-- A row with its tokens changed and others put behind it. -/
def extended (move : Token → Token) (behind tokens : List Token) : List Token :=
  tokens.map move ++ behind

namespace Extends

/-- Only at the end of a row does another token come next. -/
theorem nextKind_eq (h : Extends move behind) (tokens : List Token) :
    nextKind (extended move behind tokens) = nextKind tokens ∨
      nextKind tokens = .endOfInput ∧ nextKind (extended move behind tokens) = .separator := by
  cases tokens with
  | cons token tokens => exact .inl (h.kind token)
  | nil =>
      obtain rfl | hseparator := h.behind
      · exact .inl rfl
      · exact .inr ⟨rfl, hseparator⟩

theorem endsOperation (h : Extends move behind) {place : Place} {rest : List Token}
    (hends : place.EndsOperation rest) :
    place.EndsOperation (extended move behind rest) := by
  cases place with
  | enclosed => trivial
  | branch =>
      rw [Place.EndsOperation] at hends ⊢
      obtain hsame | ⟨_, hseparator⟩ := h.nextKind_eq rest
      · rw [hsame, hends]
      · rw [hseparator]
        rfl

theorem endsReturn (h : Extends move behind) {place : Place} {rest : List Token}
    (hends : place.EndsReturn rest) : place.EndsReturn (extended move behind rest) := by
  cases place with
  | enclosed => trivial
  | branch =>
      rw [Place.EndsReturn, EndsStatement] at hends ⊢
      obtain hsame | ⟨_, hseparator⟩ := h.nextKind_eq rest
      · rw [hsame]
        exact hends
      · exact .inl hseparator

theorem nextKind_ne_leftBrace (h : Extends move behind) {rest : List Token}
    (hne : nextKind rest ≠ .leftBrace) :
    nextKind (extended move behind rest) ≠ .leftBrace := by
  obtain hsame | ⟨_, hseparator⟩ := h.nextKind_eq rest
  · rw [hsame]
    exact hne
  · rw [hseparator]
    exact nofun

end Extends

theorem Separators.extend (h : Extends move behind) {tokens rest : List Token} :
    Separators tokens rest →
      Separators (extended move behind tokens) (extended move behind rest)
  | .none => .none
  | .more hkind hrest => .more ((h.kind _).trans hkind) (hrest.extend h)

theorem Parameters.extend (h : Extends move behind) {tokens rest : List Token}
    {parameters : List (Parameter Unit)} (hread : Parameters tokens rest parameters) :
    Parameters (extended move behind tokens) (extended move behind rest) parameters := by
  have hparameter {tokens rest : List Token} {parameter : Parameter Unit}
      (hread : ParameterRule tokens rest parameter) :
      ParameterRule (extended move behind tokens) (extended move behind rest) parameter := by
    cases hread with
    | @intro typeName name _ htype hname =>
        rw [← h.lexeme typeName, ← h.lexeme name]
        exact .intro ((h.kind _).trans htype) ((h.kind _).trans hname)
  cases hread with
  | none => exact .none
  | some hparameters =>
      refine .some ?_
      induction hparameters with
      | one hread => exact .one (hparameter hread)
      | more hread hcomma _ ih =>
          exact .more (hparameter hread) ((h.kind _).trans hcomma) ih

mutual

theorem Block.extend (h : Extends move behind) {tokens rest : List Token} {tree : Tree Unit} :
    Block tokens rest tree →
      Block (extended move behind tokens) (extended move behind rest) tree
  | .intro hopening hrow hclosing =>
    .intro ((h.kind _).trans hopening) (Row.extendStatements h hrow)
      ((h.kind _).trans hclosing)

theorem Row.extendStatements (h : Extends move behind) {tokens rest : List Token}
    {trees : List (Tree Unit)} :
    Row (Statement .enclosed) tokens rest trees →
      Row (Statement .enclosed) (extended move behind tokens) (extended move behind rest) trees
  | .none hseparators => .none (hseparators.extend h)
  | .some hseparators hrow => .some (hseparators.extend h) (SeparatedRow.extendStatements h hrow)

theorem SeparatedRow.extendStatements (h : Extends move behind) {tokens rest : List Token}
    {trees : List (Tree Unit)} :
    SeparatedRow (Statement .enclosed) tokens rest trees →
      SeparatedRow (Statement .enclosed) (extended move behind tokens)
        (extended move behind rest) trees
  | .one hread hseparators => .one (Statement.extend h hread) (hseparators.extend h)
  | .more hread hseparator hseparators hrow =>
    .more (Statement.extend h hread) ((h.kind _).trans hseparator) (hseparators.extend h)
      (SeparatedRow.extendStatements h hrow)

theorem Statement.extend (h : Extends move behind) {place : Place} {tokens rest : List Token}
    {tree : Tree Unit} :
    Statement place tokens rest tree →
      Statement place (extended move behind tokens) (extended move behind rest) tree
  | .returnNothing hkeyword hends =>
    .returnNothing ((h.kind _).trans hkeyword) (h.endsReturn hends)
  | .returnValue hkeyword hread =>
    .returnValue ((h.kind _).trans hkeyword) (Expression.extend h hread)
  | .breakLoop hkeyword => .breakLoop ((h.kind _).trans hkeyword)
  | .continueLoop hkeyword => .continueLoop ((h.kind _).trans hkeyword)
  | .expression hread => .expression (Expression.extend h hread)

theorem Expression.extend (h : Extends move behind) {place : Place} {tokens rest : List Token}
    {tree : Tree Unit} :
    Expression place tokens rest tree →
      Expression place (extended move behind tokens) (extended move behind rest) tree
  | @Expression.declaration _ typeName name _ _ _ _ htype hname hequal hread => by
    rw [← h.lexeme typeName, ← h.lexeme name]
    exact .declaration ((h.kind _).trans htype) ((h.kind _).trans hname)
      ((h.kind _).trans hequal) (Expression.extend h hread)
  | @Expression.functionBlock _ returnType name _ _ _ _ _ _ _ htype hname hopening hparameters
      hclosing hbody => by
    rw [← h.lexeme returnType, ← h.lexeme name]
    exact .functionBlock ((h.kind _).trans htype) ((h.kind _).trans hname)
      ((h.kind _).trans hopening) (hparameters.extend h) ((h.kind _).trans hclosing)
      (Block.extend h hbody)
  | @Expression.functionValue _ returnType name _ _ _ _ _ _ _ _ _ htype hname hopening
      hparameters hclosing hequal hseparators hbody => by
    rw [← h.lexeme returnType, ← h.lexeme name]
    exact .functionValue ((h.kind _).trans htype) ((h.kind _).trans hname)
      ((h.kind _).trans hopening) (hparameters.extend h) ((h.kind _).trans hclosing)
      ((h.kind _).trans hequal) (hseparators.extend h) (Expression.extend h hbody)
  | .operation hread hends => .operation (Logical.extend h hread) (h.endsOperation hends)
  | .assignment htarget hequal hassignable hread =>
    .assignment (Logical.extend h htarget) ((h.kind _).trans hequal) hassignable
      (Expression.extend h hread)

theorem Logical.extend (h : Extends move behind) {tokens rest : List Token} {tree : Tree Unit} :
    Logical tokens rest tree →
      Logical (extended move behind tokens) (extended move behind rest) tree
  | .intro hread => .intro (LeftAssociative.extendLogical h hread)

theorem LeftAssociative.extendLogical (h : Extends move behind) {tokens rest : List Token}
    {tree : Tree Unit} :
    LeftAssociative BinaryOperator.ofLogicalKind? Comparison tokens rest tree →
      LeftAssociative BinaryOperator.ofLogicalKind? Comparison (extended move behind tokens)
        (extended move behind rest) tree
  | .intro hfirst hothers =>
    .intro (Comparison.extend h hfirst) (Operations.extendLogical h hothers)

theorem Operations.extendLogical (h : Extends move behind) {tokens rest : List Token}
    {left tree : Tree Unit} :
    Operations BinaryOperator.ofLogicalKind? Comparison tokens rest left tree →
      Operations BinaryOperator.ofLogicalKind? Comparison (extended move behind tokens)
        (extended move behind rest) left tree
  | .none => .none
  | .more hoperator hread hothers =>
    .more ((congrArg _ (h.kind _)).trans hoperator) (Comparison.extend h hread)
      (Operations.extendLogical h hothers)

theorem Comparison.extend (h : Extends move behind) {tokens rest : List Token}
    {tree : Tree Unit} :
    Comparison tokens rest tree →
      Comparison (extended move behind tokens) (extended move behind rest) tree
  | .intro hread => .intro (Prefixed.extendNot h hread)

theorem Prefixed.extendNot (h : Extends move behind) {tokens rest : List Token}
    {tree : Tree Unit} :
    Prefixed UnaryOperator.ofNotKind? (LeftAssociative BinaryOperator.ofComparisonKind? Sum)
        tokens rest tree →
      Prefixed UnaryOperator.ofNotKind? (LeftAssociative BinaryOperator.ofComparisonKind? Sum)
        (extended move behind tokens) (extended move behind rest) tree
  | .none hread => .none (LeftAssociative.extendComparison h hread)
  | .more hoperator hread =>
    .more ((congrArg _ (h.kind _)).trans hoperator) (Prefixed.extendNot h hread)

theorem LeftAssociative.extendComparison (h : Extends move behind) {tokens rest : List Token}
    {tree : Tree Unit} :
    LeftAssociative BinaryOperator.ofComparisonKind? Sum tokens rest tree →
      LeftAssociative BinaryOperator.ofComparisonKind? Sum (extended move behind tokens)
        (extended move behind rest) tree
  | .intro hfirst hothers =>
    .intro (Sum.extend h hfirst) (Operations.extendComparison h hothers)

theorem Operations.extendComparison (h : Extends move behind) {tokens rest : List Token}
    {left tree : Tree Unit} :
    Operations BinaryOperator.ofComparisonKind? Sum tokens rest left tree →
      Operations BinaryOperator.ofComparisonKind? Sum (extended move behind tokens)
        (extended move behind rest) left tree
  | .none => .none
  | .more hoperator hread hothers =>
    .more ((congrArg _ (h.kind _)).trans hoperator) (Sum.extend h hread)
      (Operations.extendComparison h hothers)

theorem Sum.extend (h : Extends move behind) {tokens rest : List Token} {tree : Tree Unit} :
    Sum tokens rest tree → Sum (extended move behind tokens) (extended move behind rest) tree
  | .intro hread => .intro (LeftAssociative.extendTerm h hread)

theorem LeftAssociative.extendTerm (h : Extends move behind) {tokens rest : List Token}
    {tree : Tree Unit} :
    LeftAssociative BinaryOperator.ofTermKind? Product tokens rest tree →
      LeftAssociative BinaryOperator.ofTermKind? Product (extended move behind tokens)
        (extended move behind rest) tree
  | .intro hfirst hothers => .intro (Product.extend h hfirst) (Operations.extendTerm h hothers)

theorem Operations.extendTerm (h : Extends move behind) {tokens rest : List Token}
    {left tree : Tree Unit} :
    Operations BinaryOperator.ofTermKind? Product tokens rest left tree →
      Operations BinaryOperator.ofTermKind? Product (extended move behind tokens)
        (extended move behind rest) left tree
  | .none => .none
  | .more hoperator hread hothers =>
    .more ((congrArg _ (h.kind _)).trans hoperator) (Product.extend h hread)
      (Operations.extendTerm h hothers)

theorem Product.extend (h : Extends move behind) {tokens rest : List Token} {tree : Tree Unit} :
    Product tokens rest tree →
      Product (extended move behind tokens) (extended move behind rest) tree
  | .intro hread => .intro (LeftAssociative.extendFactor h hread)

theorem LeftAssociative.extendFactor (h : Extends move behind) {tokens rest : List Token}
    {tree : Tree Unit} :
    LeftAssociative BinaryOperator.ofFactorKind? (Prefixed UnaryOperator.ofSignKind? Operand)
        tokens rest tree →
      LeftAssociative BinaryOperator.ofFactorKind? (Prefixed UnaryOperator.ofSignKind? Operand)
        (extended move behind tokens) (extended move behind rest) tree
  | .intro hfirst hothers =>
    .intro (Prefixed.extendSign h hfirst) (Operations.extendFactor h hothers)

theorem Operations.extendFactor (h : Extends move behind) {tokens rest : List Token}
    {left tree : Tree Unit} :
    Operations BinaryOperator.ofFactorKind? (Prefixed UnaryOperator.ofSignKind? Operand)
        tokens rest left tree →
      Operations BinaryOperator.ofFactorKind? (Prefixed UnaryOperator.ofSignKind? Operand)
        (extended move behind tokens) (extended move behind rest) left tree
  | .none => .none
  | .more hoperator hread hothers =>
    .more ((congrArg _ (h.kind _)).trans hoperator) (Prefixed.extendSign h hread)
      (Operations.extendFactor h hothers)

theorem Prefixed.extendSign (h : Extends move behind) {tokens rest : List Token}
    {tree : Tree Unit} :
    Prefixed UnaryOperator.ofSignKind? Operand tokens rest tree →
      Prefixed UnaryOperator.ofSignKind? Operand (extended move behind tokens)
        (extended move behind rest) tree
  | .none hread => .none (Operand.extend h hread)
  | .more hoperator hread =>
    .more ((congrArg _ (h.kind _)).trans hoperator) (Prefixed.extendSign h hread)

theorem Operand.extend (h : Extends move behind) {tokens rest : List Token} {tree : Tree Unit} :
    Operand tokens rest tree →
      Operand (extended move behind tokens) (extended move behind rest) tree
  | .intro hprimary htrailers =>
    .intro (Primary.extend h hprimary) (Trailers.extendExpressions h htrailers)

theorem Trailers.extendExpressions (h : Extends move behind) {tokens rest : List Token}
    {object result : Tree Unit} :
    Trailers (Expression .enclosed) tokens rest object result →
      Trailers (Expression .enclosed) (extended move behind tokens) (extended move behind rest)
        object result
  | .none => .none
  | .member hdot hname hothers => by
    refine .member ((h.kind _).trans hdot) ((h.kind _).trans hname) ?_
    rw [h.lexeme]
    exact Trailers.extendExpressions h hothers
  | .index hopening hkey hclosing hothers =>
    .index ((h.kind _).trans hopening) (Spaced.extendExpression h hkey)
      ((h.kind _).trans hclosing) (Trailers.extendExpressions h hothers)
  | .call hopening harguments hclosing hothers =>
    .call ((h.kind _).trans hopening) (Items.extendExpressions h harguments)
      ((h.kind _).trans hclosing) (Trailers.extendExpressions h hothers)

theorem Spaced.extendExpression (h : Extends move behind) {tokens rest : List Token}
    {tree : Tree Unit} :
    Spaced (Expression .enclosed) tokens rest tree →
      Spaced (Expression .enclosed) (extended move behind tokens) (extended move behind rest) tree
  | .intro hbefore hread hafter =>
    .intro (hbefore.extend h) (Expression.extend h hread) (hafter.extend h)

theorem Items.extendExpressions (h : Extends move behind) {tokens rest : List Token}
    {trees : List (Tree Unit)} :
    Items (Expression .enclosed) tokens rest trees →
      Items (Expression .enclosed) (extended move behind tokens) (extended move behind rest) trees
  | .none hseparators => .none (hseparators.extend h)
  | .some hitems => .some (CommaSeparated.extendExpressions h hitems)

theorem CommaSeparated.extendExpressions (h : Extends move behind) {tokens rest : List Token}
    {trees : List (Tree Unit)} :
    CommaSeparated (Spaced (Expression .enclosed)) tokens rest trees →
      CommaSeparated (Spaced (Expression .enclosed)) (extended move behind tokens)
        (extended move behind rest) trees
  | .one hread => .one (Spaced.extendExpression h hread)
  | .more hread hcomma hothers =>
    .more (Spaced.extendExpression h hread) ((h.kind _).trans hcomma)
      (CommaSeparated.extendExpressions h hothers)

theorem Primary.extend (h : Extends move behind) {tokens rest : List Token} {tree : Tree Unit} :
    Primary tokens rest tree →
      Primary (extended move behind tokens) (extended move behind rest) tree
  | .number hkind hliteral => by
    rw [← h.kind] at hkind
    exact .number hkind ((h.literal _).trans hliteral)
  | .string hkind hliteral => .string ((h.kind _).trans hkind) ((h.literal _).trans hliteral)
  | .identifier hkind => by
    rw [← h.lexeme]
    exact .identifier ((h.kind _).trans hkind)
  | .parenthesized hopening hread hclosing =>
    .parenthesized ((h.kind _).trans hopening) (Spaced.extendExpression h hread)
      ((h.kind _).trans hclosing)
  | .list hopening hitems hclosing =>
    .list ((h.kind _).trans hopening) (Items.extendExpressions h hitems)
      ((h.kind _).trans hclosing)
  | .conditional hkeyword hcondition hbody hbranches =>
    .conditional ((h.kind _).trans hkeyword) (Expression.extend h hcondition)
      (Block.extend h hbody) (BranchRow.extend h hbranches)
  | .whileLoop hkeyword hcondition hbody =>
    .whileLoop ((h.kind _).trans hkeyword) (Expression.extend h hcondition)
      (Block.extend h hbody)
  | .namespaceDef hkeyword hname hbody => by
    rw [← h.lexeme]
    exact .namespaceDef ((h.kind _).trans hkeyword) ((h.kind _).trans hname)
      (Block.extend h hbody)

theorem BranchRow.extend (h : Extends move behind) {tokens rest : List Token}
    {branches : Branches Unit} :
    BranchRow tokens rest branches →
      BranchRow (extended move behind tokens) (extended move behind rest) branches
  | .none => .none
  | .orIf hseparators hkeyword hcondition hbody hbranches =>
    .orIf (hseparators.extend h) ((h.kind _).trans hkeyword) (Expression.extend h hcondition)
      (Block.extend h hbody) (BranchRow.extend h hbranches)
  | .otherwiseBlock hseparators hkeyword hbody =>
    .otherwiseBlock (hseparators.extend h) ((h.kind _).trans hkeyword) (Block.extend h hbody)
  | .otherwise hseparators hkeyword hne hbody =>
    .otherwise (hseparators.extend h) ((h.kind _).trans hkeyword) (h.nextKind_ne_leftBrace hne)
      (Statement.extend h hbody)

end

/-! ## Rows in a row -/

theorem SeparatedRow.append {read : Reading α} {tokens middle rest : List Token}
    {separator : Token} {xs ys : List α}
    (h : SeparatedRow read tokens (separator :: middle) xs)
    (hseparator : separator.kind = .separator) (h' : Row read middle rest ys) :
    SeparatedRow read tokens rest (xs ++ ys) := by
  have hbetween (before : List Token) (hbefore : Separators before (separator :: middle))
      (next : List Token) (hnext : Separators middle next) :
      ∃ first others, before = first :: others ∧ first.kind = .separator ∧
        Separators others next := by
    cases hbefore with
    | none => exact ⟨separator, middle, rfl, hseparator, hnext⟩
    | more hkind hothers =>
        exact ⟨_, _, rfl, hkind, hothers.trans (.more hseparator hnext)⟩
  generalize hbehind : separator :: middle = behind at h
  induction h with
  | one hread hseparators =>
      subst hbehind
      cases h' with
      | none hnothing =>
          exact .one hread (hseparators.trans (.more hseparator hnothing))
      | some hfirst hrow =>
          obtain ⟨first, others, rfl, hkind, hothers⟩ := hbetween _ hseparators _ hfirst
          exact .more hread hkind hothers hrow
  | more hread hkind hseparators _ ih =>
      exact .more hread hkind hseparators (ih hbehind)

/-- Two rows with a separator in between are a row. -/
theorem Row.append {read : Reading α} {tokens middle rest : List Token} {separator : Token}
    {xs ys : List α} (h : Row read tokens (separator :: middle) xs)
    (hseparator : separator.kind = .separator) (h' : Row read middle rest ys) :
    Row read tokens rest (xs ++ ys) := by
  cases h with
  | none hseparators =>
      have hfront : Separators tokens middle :=
        hseparators.trans (.more hseparator .none)
      cases h' with
      | none hnothing => exact .none (hfront.trans hnothing)
      | some hfirst hrow => exact .some (hfront.trans hfirst) hrow
  | some hseparators hrow => exact .some hseparators (hrow.append hseparator h')

/-- Two programs with a separator in between are a program, wherever their tokens stand. -/
theorem Program.append {move move' : Token → Token} {tokens others : List Token}
    {separator : Token} {statements further : List (Tree Unit)}
    (h : Program tokens (.block () statements)) (h' : Program others (.block () further))
    (hseparator : separator.kind = .separator)
    (hmove : Extends move (separator :: others.map move')) (hmove' : Extends move' []) :
    Program (tokens.map move ++ separator :: others.map move')
      (.block () (statements ++ further)) := by
  obtain ⟨hrow⟩ := h
  obtain ⟨hrow'⟩ := h'
  have hfront := Row.extendStatements hmove hrow
  have hbehind := Row.extendStatements hmove' hrow'
  rw [extended, extended, List.append_nil, List.append_nil] at hbehind
  exact .intro (hfront.append hseparator hbehind)

end Script.Grammar
