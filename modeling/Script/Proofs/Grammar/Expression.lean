/-
# Expressions are recognized

Two names in a row begin a definition, and nothing else does: an operation that
begins with a name ends behind it if another name follows. With definitions, the
parser of expressions recognizes expressions as soon as the parser it is given for
nested ones does, and every nesting takes a token.
-/

import Script.Proofs.Grammar.Operation

namespace Script.Grammar

open Script.Parser

variable {bound : Nat} {ending : Token} {tokens : List Token} {expression : Parser Node}

/-! ## Two names in a row -/

section Names

variable {first second : Token} {rest : List Token} {tree : Tree Unit}

theorem Operations.eq_of_name {operator? : Token.Kind → Option BinaryOperator}
    {read : Reading (Tree Unit)} {left result : Tree Unit} (hnone : operator? .identifier = .none)
    (hname : nextKind tokens = .identifier)
    (h : Operations operator? read tokens rest left result) : rest = tokens := by
  cases h with
  | none => rfl
  | more hkind _ _ =>
      rw [nextKind_cons] at hname
      rw [hname, hnone] at hkind
      cases hkind

theorem LeftAssociative.eq_of_names {operator? : Token.Kind → Option BinaryOperator}
    {read : Reading (Tree Unit)} (hnone : operator? .identifier = .none)
    (hread : ∀ {rest tree}, read (first :: second :: tokens) rest tree → rest = second :: tokens)
    (hsecond : second.kind = .identifier)
    (h : LeftAssociative operator? read (first :: second :: tokens) rest tree) :
    rest = second :: tokens := by
  obtain ⟨hfirst, hoperations⟩ := h
  obtain rfl := hread hfirst
  exact hoperations.eq_of_name hnone hsecond

theorem Prefixed.eq_of_names {operator? : Token.Kind → Option UnaryOperator}
    {read : Reading (Tree Unit)} (hnone : operator? .identifier = .none)
    (hread : ∀ {rest tree}, read (first :: second :: tokens) rest tree → rest = second :: tokens)
    (hfirst : first.kind = .identifier)
    (h : Prefixed operator? read (first :: second :: tokens) rest tree) :
    rest = second :: tokens := by
  cases h with
  | none hoperand => exact hread hoperand
  | more hkind _ =>
      rw [hfirst, hnone] at hkind
      cases hkind

theorem Operand.eq_of_names (hfirst : first.kind = .identifier)
    (hsecond : second.kind = .identifier)
    (h : Operand (first :: second :: tokens) rest tree) : rest = second :: tokens := by
  obtain ⟨hprimary, htrailers⟩ := h
  cases hprimary with
  | identifier _ =>
      cases htrailers with
      | none => rfl
      | member hkind _ _ | index hkind _ _ _ | call hkind _ _ _ =>
          rw [hsecond] at hkind
          cases hkind
  | number hkind _ => simp [hfirst] at hkind
  | string hkind _ | parenthesized hkind _ _ | list hkind _ _ | conditional hkind _ _ _
  | whileLoop hkind _ _ | namespaceDef hkind _ _ =>
      rw [hfirst] at hkind
      cases hkind

theorem Logical.eq_of_names (hfirst : first.kind = .identifier)
    (hsecond : second.kind = .identifier)
    (h : Logical (first :: second :: tokens) rest tree) : rest = second :: tokens := by
  obtain ⟨hcomparisons⟩ := h
  refine LeftAssociative.eq_of_names rfl (fun ⟨hnegations⟩ => ?_) hsecond hcomparisons
  refine Prefixed.eq_of_names rfl (fun hsums => ?_) hfirst hnegations
  refine LeftAssociative.eq_of_names rfl (fun ⟨hterms⟩ => ?_) hsecond hsums
  refine LeftAssociative.eq_of_names rfl (fun ⟨hfactors⟩ => ?_) hsecond hterms
  refine LeftAssociative.eq_of_names rfl (fun hsigned => ?_) hsecond hfactors
  exact Prefixed.eq_of_names rfl (fun h => h.eq_of_names hfirst hsecond) hfirst hsigned

/-- Whether a row begins with two names. -/
def BeginsDefinition (tokens : List Token) : Prop :=
  nextKind tokens = .identifier ∧ nextKind tokens.tail = .identifier

/-- No operation that ends before a clear row begins with two names. -/
theorem Logical.not_beginsDefinition (h : Logical tokens rest tree) (hclear : Clear rest) :
    ¬ BeginsDefinition tokens := by
  rintro ⟨hfirst, hsecond⟩
  obtain _ | ⟨first, _ | ⟨second, tokens⟩⟩ := tokens
  · cases hfirst
  · cases hsecond
  · obtain rfl := h.eq_of_names hfirst hsecond
    exact hclear.noName hsecond

theorem TokenStream.peekAt_kind (hending : ending.kind = .endOfInput) (distance : Nat) :
    ((TokenStream.mk tokens ending).peekAt distance).kind = nextKind (tokens.drop distance) := by
  rw [TokenStream.peekAt, ← List.head?_drop]
  cases tokens.drop distance with
  | nil => exact hending
  | cons token tokens => rfl

theorem run_expressionWith_of_not (hending : ending.kind = .endOfInput)
    (h : ¬ BeginsDefinition tokens) :
    (expressionWith bound expression).run ⟨tokens, ending⟩ =
      (assignment bound expression).run ⟨tokens, ending⟩ := by
  rw [expressionWith, run_bind_of_ok (run_get _), if_neg]
  rwa [TokenStream.peek_kind hending, TokenStream.peekAt_kind hending, List.drop_one]

/-- The kind of the token behind two names tells what they begin. -/
theorem run_expressionWith_of_names (hending : ending.kind = .endOfInput)
    (hfirst : first.kind = .identifier) (hsecond : second.kind = .identifier) :
    (expressionWith bound expression).run ⟨first :: second :: tokens, ending⟩ =
      (match nextKind tokens with
        | .leftParen => functionDef bound expression
        | .equal => declaration expression
        | _ => failAt (tokens.headD ending) .expectedEqualOrParen : Parser Node).run
        ⟨first :: second :: tokens, ending⟩ := by
  have hnames : BeginsDefinition (first :: second :: tokens) := ⟨hfirst, hsecond⟩
  have hthird : (TokenStream.mk (first :: second :: tokens) ending).peekAt 2 =
      tokens.headD ending := by
    cases tokens <;> rfl
  rw [expressionWith, run_bind_of_ok (run_get _), if_pos]
  · rw [TokenStream.peekAt_kind hending, hthird]
    rfl
  · rwa [TokenStream.peek_kind hending, TokenStream.peekAt_kind hending, List.drop_one]

end Names

/-! ## Parameters -/

theorem recognizes_parameter :
    Recognizes bound parameter Parameter.shape ParameterRule fun _ => True where
  sound := by
    intro ending tokens a after hending _ hrun
    obtain ⟨typeName, _, htype, hrun⟩ := run_bind_eq_ok_iff.mp hrun
    obtain ⟨middle, rfl, htypeKind, rfl⟩ := (run_expect_eq_ok_iff hending (by decide)).mp htype
    obtain ⟨name, _, hname, hpure⟩ := run_bind_eq_ok_iff.mp hrun
    obtain ⟨rest, rfl, hnameKind, rfl⟩ := (run_expect_eq_ok_iff hending (by decide)).mp hname
    cases hpure
    exact ⟨rest, rfl, (Behind.of_cons typeName (name :: rest)).trans (.of_cons name rest),
      .intro htypeKind hnameKind⟩
  complete := by
    intro ending tokens rest x hending _ hread _
    cases hread with
    | @intro typeName name _ htype hname =>
        refine ⟨⟨typeName.span.through name.span, typeName.lexeme, name.lexeme⟩, ?_, rfl⟩
        rw [parameter, run_bind_of_ok (run_expect_cons htype),
          run_bind_of_ok (run_expect_cons hname)]
        rfl

theorem sound_parameters (hending : ending.kind = .endOfInput) (hlength : tokens.length < bound)
    {parameters : List (Parameter Span)} {after : TokenStream}
    (hrun : (itemsBefore .rightParen parameter bound).run ⟨tokens, ending⟩ =
      .ok (parameters, after)) :
    ∃ rest, after = ⟨rest, ending⟩ ∧ rest <:+ tokens ∧
      Parameters tokens rest (parameters.map Parameter.shape) := by
  by_cases hnext : nextKind tokens = .rightParen
  · rw [run_itemsBefore_of_eq hending hnext] at hrun
    cases hrun
    exact ⟨tokens, rfl, List.suffix_refl _, .none⟩
  · rw [run_itemsBefore_of_ne hending hnext] at hrun
    obtain ⟨rest, rfl, hbehind, hread⟩ :=
      sound_commaSeparated recognizes_parameter hending (Nat.le_refl _) hlength hrun
    exact ⟨rest, rfl, hbehind.1, .some hread⟩

theorem CommaSeparated.starts_parameter {rest : List Token} {parameters : List (Parameter Unit)}
    (h : CommaSeparated ParameterRule tokens rest parameters) :
    nextKind tokens = .identifier := by
  cases h with
  | one hread | more hread _ _ =>
      obtain ⟨htype, _⟩ := hread
      exact htype

theorem complete_parameters (hending : ending.kind = .endOfInput)
    (hlength : tokens.length < bound) {closing : Token} {rest : List Token}
    {parameters : List (Parameter Unit)} (hread : Parameters tokens (closing :: rest) parameters)
    (hclose : closing.kind = .rightParen) :
    ∃ nodes, (itemsBefore .rightParen parameter bound).run ⟨tokens, ending⟩ =
      .ok (nodes, ⟨closing :: rest, ending⟩) ∧ nodes.map Parameter.shape = parameters := by
  cases hread with
  | none => exact ⟨[], run_itemsBefore_of_eq hending hclose, rfl⟩
  | some hread =>
      have hnext : nextKind tokens ≠ .rightParen := by
        rw [hread.starts_parameter]
        decide
      rw [run_itemsBefore_of_ne hending hnext]
      exact complete_commaSeparated recognizes_parameter (fun _ _ _ => trivial) hending
        (Nat.le_refl _) hlength hread trivial (by simp [hclose])

theorem Parameters.suffix {rest : List Token} {parameters : List (Parameter Unit)}
    (h : Parameters tokens rest parameters) : rest <:+ tokens := by
  cases h with
  | none => exact List.suffix_refl _
  | some hread =>
      induction hread with
      | one hparameter =>
          obtain ⟨_, _⟩ := hparameter
          exact ((Behind.of_cons _ _).trans (.of_cons _ _)).1
      | more hparameter _ _ ih =>
          obtain ⟨_, _⟩ := hparameter
          exact ih.trans (((Behind.of_cons _ _).trans (.of_cons _ _)).trans (.of_cons _ _)).1

/-! ## Definitions -/

/-- The parts of a function's definition before its body are read as one. -/
theorem run_functionDef_of_body (hending : ending.kind = .endOfInput)
    {returnType name opening closing : Token} {middle : List Token}
    {parameters : List (Parameter Unit)} {givesBody : Bool} {body : Node} {after : TokenStream}
    (hlength : tokens.length < bound) (hopen : opening.kind = .leftParen)
    (hread : Parameters tokens (closing :: middle) parameters)
    (hclose : closing.kind = .rightParen)
    (hbody : (functionBody bound expression).run ⟨middle, ending⟩ =
      .ok ((givesBody, body), after)) :
    ∃ node, (functionDef bound expression).run
        ⟨returnType :: name :: opening :: tokens, ending⟩ = .ok (node, after) ∧
      node.shape = .functionDef () returnType.lexeme name.lexeme parameters givesBody
        body.shape := by
  obtain ⟨nodes, hnodes, rfl⟩ := complete_parameters hending hlength hread hclose
  refine ⟨.functionDef (returnType.span.through body.site) returnType.lexeme name.lexeme nodes
    givesBody body, ?_, rfl⟩
  rw [functionDef, run_bind_of_ok (run_advance_cons _ _ _),
    run_bind_of_ok (run_advance_cons _ _ _), run_bind_of_ok (run_expect_cons hopen),
    run_bind_of_ok hnodes, run_bind_of_ok (run_expect_cons hclose), run_bind_of_ok hbody]
  rfl

section Definitions

variable (hexpression : RecognizesPlaced bound expression Expression EndsExpression)

include hexpression

theorem sound_declaration (hending : ending.kind = .endOfInput)
    (hlength : tokens.length < bound) {typeName name : Token}
    (htype : typeName.kind = .identifier) (hname : name.kind = .identifier) {node : Node}
    {after : TokenStream}
    (hrun : (declaration expression).run ⟨typeName :: name :: tokens, ending⟩ =
      .ok (node, after)) :
    ∃ rest, after = ⟨rest, ending⟩ ∧ Behind rest (typeName :: name :: tokens) ∧
      ∀ place, Expression place (typeName :: name :: tokens) rest node.shape := by
  rw [declaration, run_bind_of_ok (run_advance_cons _ _ _),
    run_bind_of_ok (run_advance_cons _ _ _)] at hrun
  obtain ⟨equal, _, hequal, hrun⟩ := run_bind_eq_ok_iff.mp hrun
  obtain ⟨inner, rfl, hkind, rfl⟩ := (run_expect_eq_ok_iff hending (by decide)).mp hequal
  obtain ⟨value, _, hvalue, hpure⟩ := run_bind_eq_ok_iff.mp hrun
  rw [List.length_cons] at hlength
  obtain ⟨rest, rfl, hrest, hread⟩ := hexpression.sound hending (by omega) hvalue
  cases hpure
  have hnames := (Behind.of_cons typeName (name :: equal :: inner)).trans (.of_cons name _)
  exact ⟨rest, rfl, (hnames.trans (.of_cons equal inner)).trans hrest,
    fun place => .declaration htype hname hkind (hread place)⟩

/-- A function's body is a block, or a value behind an equals sign. -/
theorem sound_functionBody (hending : ending.kind = .endOfInput)
    (hlength : tokens.length < bound) {givesBody : Bool} {body : Node} {after : TokenStream}
    (hrun : (functionBody bound expression).run ⟨tokens, ending⟩ =
      .ok ((givesBody, body), after)) :
    ∃ rest, after = ⟨rest, ending⟩ ∧ Behind rest tokens ∧
      ((givesBody = false ∧ Block tokens rest body.shape) ∨
        ∃ equal middle inner, givesBody = true ∧ tokens = equal :: middle ∧
          equal.kind = .equal ∧ Separators middle inner ∧
          ∀ place, Expression place inner rest body.shape) := by
  rw [functionBody, run_bind_of_ok (run_peekKind_eq hending)] at hrun
  split at hrun
  · obtain ⟨_, _, hbody, hpure⟩ := run_bind_eq_ok_iff.mp hrun
    obtain ⟨rest, rfl, hrest, hblock⟩ :=
      (recognizes_block hexpression).sound hending (by omega) hbody
    cases hpure
    exact ⟨rest, rfl, hrest, .inl ⟨rfl, hblock⟩⟩
  · next hkind =>
    cases tokens with
    | nil => cases hkind
    | cons equal middle =>
        have hsuffix := pastSeparators_suffix middle
        have hshort := hsuffix.length_le
        rw [List.length_cons] at hlength
        rw [run_bind_of_ok (run_advance_cons _ _ _),
          run_bind_of_ok (run_skipSeparators _ _)] at hrun
        obtain ⟨_, _, hbody, hpure⟩ := run_bind_eq_ok_iff.mp hrun
        obtain ⟨rest, rfl, hrest, hread⟩ := hexpression.sound hending (by omega) hbody
        cases hpure
        have hequal := (Behind.of_cons equal middle).trans_suffix hsuffix
        exact ⟨rest, rfl, hequal.trans hrest,
          .inr ⟨equal, middle, _, rfl, rfl, hkind, separators_pastSeparators middle, hread⟩⟩
  · exact absurd hrun run_fail_ne_ok

theorem sound_functionDef (hending : ending.kind = .endOfInput)
    (hlength : tokens.length < bound) {returnType name : Token}
    (htype : returnType.kind = .identifier) (hname : name.kind = .identifier) {node : Node}
    {after : TokenStream}
    (hrun : (functionDef bound expression).run ⟨returnType :: name :: tokens, ending⟩ =
      .ok (node, after)) :
    ∃ rest, after = ⟨rest, ending⟩ ∧ Behind rest (returnType :: name :: tokens) ∧
      ∀ place, Expression place (returnType :: name :: tokens) rest node.shape := by
  rw [functionDef, run_bind_of_ok (run_advance_cons _ _ _),
    run_bind_of_ok (run_advance_cons _ _ _)] at hrun
  obtain ⟨opening, _, hopening, hrun⟩ := run_bind_eq_ok_iff.mp hrun
  obtain ⟨inner, rfl, hopen, rfl⟩ := (run_expect_eq_ok_iff hending (by decide)).mp hopening
  obtain ⟨parameters, _, hparameters, hrun⟩ := run_bind_eq_ok_iff.mp hrun
  obtain ⟨closing, _, hclosing, hrun⟩ := run_bind_eq_ok_iff.mp hrun
  obtain ⟨⟨givesBody, body⟩, _, hbody, hpure⟩ := run_bind_eq_ok_iff.mp hrun
  rw [List.length_cons] at hlength
  obtain ⟨_, rfl, hsuffix, hread⟩ := sound_parameters hending (by omega) hparameters
  obtain ⟨middle, rfl, hclose, rfl⟩ := (run_expect_eq_ok_iff hending (by decide)).mp hclosing
  have hshort := hsuffix.length_le
  rw [List.length_cons] at hshort
  obtain ⟨rest, rfl, hrest, hcases⟩ :=
    sound_functionBody hexpression hending (by omega) hbody
  cases hpure
  have hnames := (Behind.of_cons returnType (name :: opening :: inner)).trans (.of_cons name _)
  have hinner := (hnames.trans (.of_cons opening inner)).trans_suffix hsuffix
  refine ⟨rest, rfl, (hinner.trans (.of_cons closing middle)).trans hrest, fun place => ?_⟩
  rcases hcases with ⟨rfl, hblock⟩ | ⟨equal, before, first, rfl, rfl, hequal, hseparators, hvalue⟩
  · exact .functionBlock htype hname hopen hread hclose hblock
  · exact .functionValue htype hname hopen hread hclose hequal hseparators (hvalue place)

/-! ## All expressions -/

theorem sound_expressionWith (hending : ending.kind = .endOfInput)
    (hlength : tokens.length < bound + 1) {node : Node} {after : TokenStream}
    (hrun : (expressionWith bound expression).run ⟨tokens, ending⟩ = .ok (node, after)) :
    ∃ rest, after = ⟨rest, ending⟩ ∧ Behind rest tokens ∧
      ∀ place, Expression place tokens rest node.shape := by
  by_cases hnames : BeginsDefinition tokens
  · obtain ⟨hfirst, hsecond⟩ := hnames
    obtain _ | ⟨first, _ | ⟨second, tokens⟩⟩ := tokens
    · cases hfirst
    · cases hsecond
    · simp only [List.length_cons] at hlength
      rw [run_expressionWith_of_names hending hfirst hsecond] at hrun
      split at hrun
      · exact sound_functionDef hexpression hending (by omega) hfirst hsecond hrun
      · exact sound_declaration hexpression hending (by omega) hfirst hsecond hrun
      · exact absurd hrun run_failAt_ne_ok
  · rw [run_expressionWith_of_not hending hnames] at hrun
    exact sound_assignment hexpression hending hlength hrun

theorem recognizes_expressionWith :
    RecognizesPlaced (bound + 1) (expressionWith bound expression) Expression EndsExpression where
  sound hending hlength hrun := sound_expressionWith hexpression hending hlength hrun
  complete := by
    intro ending place tokens rest tree hending hlength hread hclear hends
    cases hread with
    | @declaration _ typeName name equal inner _ value htype hname hequal hvalue =>
        simp only [List.length_cons] at hlength
        obtain ⟨node, hnode, rfl⟩ := hexpression.complete hending (by omega) hvalue hclear hends
        refine ⟨.declare (typeName.span.through node.site) typeName.lexeme name.lexeme node, ?_,
          rfl⟩
        rw [run_expressionWith_of_names hending htype hname, nextKind_cons, hequal]
        dsimp only
        rw [declaration, run_bind_of_ok (run_advance_cons _ _ _),
          run_bind_of_ok (run_advance_cons _ _ _), run_bind_of_ok (run_expect_cons hequal),
          run_bind_of_ok hnode]
        rfl
    | @functionBlock _ returnType name opening closing inner middle _ parameters body htype hname
        hopen hparameters hclose hblock =>
        simp only [List.length_cons] at hlength
        have hkind : nextKind middle = .leftBrace := by
          obtain ⟨hkind, _⟩ := hblock
          exact hkind
        have hshort := hparameters.suffix.length_le
        rw [List.length_cons] at hshort
        obtain ⟨node, hnode, rfl⟩ :=
          (recognizes_block hexpression).complete hending (by omega) hblock trivial
        have hbody : (functionBody bound expression).run ⟨middle, ending⟩ =
            .ok ((false, node), ⟨rest, ending⟩) := by
          rw [functionBody, run_bind_of_ok (run_peekKind_eq hending), hkind]
          dsimp only
          rw [run_bind_of_ok hnode]
          rfl
        rw [run_expressionWith_of_names hending htype hname, nextKind_cons, hopen]
        exact run_functionDef_of_body hending (by omega) hopen hparameters hclose hbody
    | @functionValue _ returnType name opening closing equal inner middle first _ parameters body
        htype hname hopen hparameters hclose hequal hseparators hvalue =>
        simp only [List.length_cons] at hlength
        have hpast := hseparators.eq_pastSeparators (startsExpression_ne_separator hvalue.starts)
        have hshort := hparameters.suffix.length_le
        have hless := (pastSeparators_suffix middle).length_le
        simp only [List.length_cons] at hshort
        rw [← hpast] at hless
        obtain ⟨node, hnode, rfl⟩ := hexpression.complete hending (by omega) hvalue hclear hends
        have hbody : (functionBody bound expression).run ⟨equal :: middle, ending⟩ =
            .ok ((true, node), ⟨rest, ending⟩) := by
          rw [functionBody, run_bind_of_ok (run_peekKind_eq hending), nextKind_cons, hequal]
          dsimp only
          rw [run_bind_of_ok (run_advance_cons _ _ _),
            run_bind_of_ok (run_skipSeparators _ _), ← hpast, run_bind_of_ok hnode]
          rfl
        rw [run_expressionWith_of_names hending htype hname, nextKind_cons, hopen]
        exact run_functionDef_of_body hending (by omega) hopen hparameters hclose hbody
    | operation hlogical hplace =>
        have hstop : EndsExpression rest := by
          cases place with
          | enclosed => exact hends rfl
          | branch => exact hplace
        rw [run_expressionWith_of_not hending (hlogical.not_beginsDefinition hclear)]
        exact complete_operation hexpression hending hlength hlogical hclear hstop
    | @assignment _ equal _ middle _ target value hlogical hequal hassignable hvalue =>
        have hmiddle : Clear (equal :: middle) :=
          .of_nextKind (by rw [nextKind_cons, hequal]; rfl)
        rw [run_expressionWith_of_not hending (hlogical.not_beginsDefinition hmiddle)]
        exact complete_assignment hexpression hending hlength hlogical hequal hassignable hvalue
          hclear hends

end Definitions

/-- The parser of expressions recognizes them. Its bound is never what stops it: an
expression nested in another stands behind at least one token of it. -/
theorem recognizes_expression (bound : Nat) :
    RecognizesPlaced bound (Parser.expression bound) Expression EndsExpression := by
  induction bound with
  | zero =>
      constructor
      · intro ending tokens node after _ _ hrun
        exact absurd hrun run_fail_ne_ok
      · intro ending place tokens rest tree _ hlength hread _ _
        obtain rfl : tokens = [] := List.length_eq_zero_iff.mp (by omega)
        cases hread.starts
  | succ bound ih => exact recognizes_expressionWith ih

end Script.Grammar
