/-
# Primary operands are recognized

Given a parser that recognizes expressions, the parsers of literals, brackets, lists,
conditionals, loops and namespaces recognize the primary operands. A conditional is
the one operand at whose end a parser looks further than one token, which is why it
may stop only before a clear row.
-/

import Script.Proofs.Grammar.Statement

namespace Script.Grammar

open Script.Parser

variable {bound : Nat} {ending : Token} {tokens : List Token} {expression : Parser Node}

/-! ## Closing tokens of brackets -/

/-- What may stand behind an expression that is enclosed. -/
def StopsExpression (rest : List Token) : Prop := Clear rest ∧ EndsExpression rest

theorem stopsExpression_of_kind {kind : Token.Kind} (hclear : isClear kind = true)
    (hcarries : carriesOn kind = false) {rest : List Token} (hkind : nextKind rest = kind) :
    StopsExpression rest := by
  subst hkind
  exact ⟨.of_nextKind hclear, hcarries⟩

theorem StopsExpression.of_separators {rest : List Token} (h : Separators tokens rest)
    (hrest : StopsExpression rest) : StopsExpression tokens := by
  refine ⟨hrest.1.of_separators h, ?_⟩
  cases h with
  | none => exact hrest.2
  | more hkind _ => rw [EndsExpression, nextKind_cons, hkind]; rfl

/-- The closing token of a pair of brackets. -/
def ClosesBracket (kind : Token.Kind) : Prop :=
  kind = .rightParen ∨ kind = .rightBracket ∨ kind = .rightBrace

theorem ClosesBracket.stopsExpression {kind : Token.Kind} (h : ClosesBracket kind)
    {rest : List Token} (hkind : nextKind rest = kind) : StopsExpression rest := by
  rcases h with rfl | rfl | rfl <;> exact stopsExpression_of_kind rfl rfl hkind

theorem ClosesBracket.not_starts {kind : Token.Kind} (h : ClosesBracket kind) :
    startsExpression kind = false := by
  rcases h with rfl | rfl | rfl <;> rfl

theorem startsExpression_ne_separator {kind : Token.Kind} (h : startsExpression kind = true) :
    kind ≠ .separator := by
  rintro rfl
  cases h

theorem ClosesBracket.stopsSpaced {kind : Token.Kind} (h : ClosesBracket kind)
    {closing : Token} (hkind : closing.kind = kind) (rest : List Token) :
    StopsSpaced StopsExpression (closing :: rest) := by
  refine ⟨?_, fun tokens hseparators => .of_separators hseparators (h.stopsExpression hkind)⟩
  rw [nextKind_cons, hkind]
  rcases h with rfl | rfl | rfl <;> decide

theorem ClosesBracket.closes {kind : Token.Kind} (h : ClosesBracket kind) :
    Closes (Expression .enclosed) StopsExpression kind where
  ne_separator := by rcases h with rfl | rfl | rfl <;> decide
  ne_comma := by rcases h with rfl | rfl | rfl <;> decide
  ne_ending := by rcases h with rfl | rfl | rfl <;> decide
  starts := by
    intro tokens rest tree hread
    have hstart := hread.starts
    refine ⟨startsExpression_ne_separator hstart, ?_⟩
    rintro rfl
    rw [h.not_starts] at hstart
    cases hstart
  stops := by
    intro tokens token rest hkind hseparators
    apply StopsExpression.of_separators hseparators
    rcases hkind with hkind | hkind
    · exact h.stopsExpression hkind
    · exact stopsExpression_of_kind rfl rfl hkind

theorem recognizes_spaced_expression
    (hexpression : RecognizesPlaced bound expression Expression EndsExpression) :
    Recognizes bound (spaced expression) Tree.shape (Spaced (Expression .enclosed))
      (StopsSpaced StopsExpression) :=
  recognizes_spaced hexpression.enclosed fun h => startsExpression_ne_separator h.starts

/-! ## Brackets and lists -/

theorem sound_parenthesized
    (hexpression : RecognizesPlaced bound expression Expression EndsExpression)
    (hending : ending.kind = .endOfInput) {opening : Token} (hkind : opening.kind = .leftParen)
    (hlength : tokens.length < bound) {node : Node} {after : TokenStream}
    (hrun : (parenthesized expression).run ⟨opening :: tokens, ending⟩ = .ok (node, after)) :
    ∃ rest, after = ⟨rest, ending⟩ ∧ Behind rest (opening :: tokens) ∧
      Primary (opening :: tokens) rest node.shape := by
  rw [parenthesized, run_bind_of_ok (run_advance_cons _ _ _)] at hrun
  obtain ⟨inner, _, hinner, hrun⟩ := run_bind_eq_ok_iff.mp hrun
  obtain ⟨closing, _, hclosing, hpure⟩ := run_bind_eq_ok_iff.mp hrun
  cases hpure
  obtain ⟨middle, rfl, hbehind, hread⟩ :=
    (recognizes_spaced_expression hexpression).sound hending hlength hinner
  obtain ⟨rest, rfl, hclose, rfl⟩ := (run_expect_eq_ok_iff hending (by decide)).mp hclosing
  refine ⟨rest, rfl, ((Behind.of_cons opening tokens).trans hbehind).trans (.of_cons _ _), ?_⟩
  rw [Tree.shape_withSite]
  exact .parenthesized hkind hread hclose

theorem complete_parenthesized
    (hexpression : RecognizesPlaced bound expression Expression EndsExpression)
    (hending : ending.kind = .endOfInput) {opening closing : Token} {rest : List Token}
    {tree : Tree Unit} (hlength : tokens.length < bound)
    (hread : Spaced (Expression .enclosed) tokens (closing :: rest) tree)
    (hclose : closing.kind = .rightParen) :
    ∃ node, (parenthesized expression).run ⟨opening :: tokens, ending⟩ =
      .ok (node, ⟨rest, ending⟩) ∧ node.shape = tree := by
  have hcloses : ClosesBracket .rightParen := .inl rfl
  obtain ⟨inner, hinner, rfl⟩ := (recognizes_spaced_expression hexpression).complete hending
    hlength hread (hcloses.stopsSpaced hclose rest)
  refine ⟨inner.withSite (opening.span.through closing.span), ?_, Tree.shape_withSite _ _⟩
  rw [parenthesized, run_bind_of_ok (run_advance_cons _ _ _), run_bind_of_ok hinner,
    run_bind_of_ok (run_expect_cons hclose)]
  rfl

theorem sound_listLiteral
    (hexpression : RecognizesPlaced bound expression Expression EndsExpression)
    (hending : ending.kind = .endOfInput) {opening : Token} (hkind : opening.kind = .leftBrace)
    (hlength : tokens.length < bound) {node : Node} {after : TokenStream}
    (hrun : (listLiteral bound expression).run ⟨opening :: tokens, ending⟩ = .ok (node, after)) :
    ∃ rest, after = ⟨rest, ending⟩ ∧ Behind rest (opening :: tokens) ∧
      Primary (opening :: tokens) rest node.shape := by
  have hcloses : ClosesBracket .rightBrace := .inr (.inr rfl)
  rw [listLiteral, run_bind_of_ok (run_advance_cons _ _ _)] at hrun
  obtain ⟨⟨nodes, closing⟩, _, hitems, hpure⟩ := run_bind_eq_ok_iff.mp hrun
  obtain ⟨rest, rfl, hclose, hbehind, hread⟩ :=
    sound_items hexpression.enclosed hcloses.closes hending hlength hitems
  cases hpure
  refine ⟨rest, rfl, (Behind.of_cons opening tokens).trans hbehind, ?_⟩
  rw [Tree.shape, Tree.shapeEach_eq_map]
  exact .list hkind hread hclose

theorem complete_listLiteral
    (hexpression : RecognizesPlaced bound expression Expression EndsExpression)
    (hending : ending.kind = .endOfInput) {opening closing : Token} {rest : List Token}
    {trees : List (Tree Unit)} (hlength : tokens.length < bound)
    (hread : Items (Expression .enclosed) tokens (closing :: rest) trees)
    (hclose : closing.kind = .rightBrace) :
    ∃ node, (listLiteral bound expression).run ⟨opening :: tokens, ending⟩ =
      .ok (node, ⟨rest, ending⟩) ∧ node.shape = .list () trees := by
  have hcloses : ClosesBracket .rightBrace := .inr (.inr rfl)
  obtain ⟨nodes, hitems, rfl⟩ :=
    complete_items hexpression.enclosed hcloses.closes hending _ hlength hread hclose
  refine ⟨.list (opening.span.through closing.span) nodes, ?_, ?_⟩
  · rw [listLiteral, run_bind_of_ok (run_advance_cons _ _ _), run_bind_of_ok hitems]
    rfl
  · rw [Tree.shape, Tree.shapeEach_eq_map]

/-! ## Conditionals, loops and namespaces -/

theorem sound_condition_block
    (hexpression : RecognizesPlaced bound expression Expression EndsExpression)
    (hending : ending.kind = .endOfInput) (hlength : tokens.length < bound)
    {condition body : Node} {between after : TokenStream}
    (hcondition : expression.run ⟨tokens, ending⟩ = .ok (condition, between))
    (hbody : (block bound expression).run between = .ok (body, after)) :
    ∃ middle rest, after = ⟨rest, ending⟩ ∧ Behind rest tokens ∧
      Expression .enclosed tokens middle condition.shape ∧ Block middle rest body.shape := by
  obtain ⟨middle, rfl, hmiddle, hread⟩ := hexpression.sound hending hlength hcondition
  have hshort := hmiddle.2
  obtain ⟨rest, rfl, hrest, hblock⟩ :=
    (recognizes_block hexpression).sound hending (by omega) hbody
  exact ⟨middle, rest, rfl, hmiddle.trans hrest, hread .enclosed, hblock⟩

theorem complete_condition_block
    (hexpression : RecognizesPlaced bound expression Expression EndsExpression)
    (hending : ending.kind = .endOfInput) (hlength : tokens.length < bound)
    {middle rest : List Token} {condition body : Tree Unit}
    (hcondition : Expression .enclosed tokens middle condition) (hbody : Block middle rest body) :
    ∃ conditionNode bodyNode,
      expression.run ⟨tokens, ending⟩ = .ok (conditionNode, ⟨middle, ending⟩) ∧
      (block bound expression).run ⟨middle, ending⟩ = .ok (bodyNode, ⟨rest, ending⟩) ∧
      conditionNode.shape = condition ∧ bodyNode.shape = body ∧ Behind rest tokens := by
  have hstops : StopsExpression middle := by
    cases hbody with
    | intro hkind _ _ => exact stopsExpression_of_kind rfl rfl hkind
  obtain ⟨conditionNode, hrun, hshape⟩ :=
    hexpression.enclosed.complete hending hlength hcondition hstops
  have hmiddle := hexpression.enclosed.behind hlength hcondition hstops
  have hshort := hmiddle.2
  have hblock := recognizes_block hexpression
  obtain ⟨bodyNode, hrunBody, hshapeBody⟩ := hblock.complete hending (by omega) hbody trivial
  have hrest := hblock.behind (by omega) hbody trivial
  exact ⟨conditionNode, bodyNode, hrun, hrunBody, hshape, hshapeBody, hmiddle.trans hrest⟩

/-- A row that has some kind of token behind its separators has a token there. -/
theorem exists_pastSeparators_eq_cons {kind : Token.Kind}
    (hkind : nextKind (pastSeparators tokens) = kind) (hne : kind ≠ .endOfInput) :
    ∃ token rest, pastSeparators tokens = token :: rest ∧ token.kind = kind := by
  cases hpast : pastSeparators tokens with
  | nil =>
      rw [hpast] at hkind
      exact absurd hkind.symm hne
  | cons token rest =>
      rw [hpast] at hkind
      exact ⟨token, rest, rfl, hkind⟩

theorem sound_branches
    (hexpression : RecognizesPlaced bound expression Expression EndsExpression)
    (hending : ending.kind = .endOfInput) {count : Nat} :
    ∀ {tokens : List Token} {rows : Branches Span} {after : TokenStream},
      tokens.length < bound →
      (branches bound expression count).run ⟨tokens, ending⟩ = .ok (rows, after) →
      ∃ rest, after = ⟨rest, ending⟩ ∧ rest <:+ tokens ∧ BranchRow tokens rest rows.shape := by
  induction count with
  | zero =>
      intro tokens rows after hlength hrun
      exact absurd hrun run_fail_ne_ok
  | succ count ih =>
      intro tokens rows after hlength hrun
      have hseparators := separators_pastSeparators tokens
      have hsuffix := pastSeparators_suffix tokens
      have hshort := hsuffix.length_le
      rw [Rounds.ofCount_succ, branches, run_bind_of_ok (run_kindPastSeparators hending)] at hrun
      split at hrun
      · next hkind =>
        obtain ⟨keyword, inner, hpast, hkeyword⟩ :=
          exists_pastSeparators_eq_cons hkind (by decide)
        rw [hpast] at hseparators hsuffix hshort
        rw [List.length_cons] at hshort
        rw [run_bind_of_ok (run_skipSeparators _ _), hpast,
          run_bind_of_ok (run_advance_cons _ _ _)] at hrun
        obtain ⟨condition, _, hcondition, hrun⟩ := run_bind_eq_ok_iff.mp hrun
        obtain ⟨body, _, hbody, hrun⟩ := run_bind_eq_ok_iff.mp hrun
        obtain ⟨others, _, hothers, hpure⟩ := run_bind_eq_ok_iff.mp hrun
        obtain ⟨middle, next, rfl, hnext, hread, hblock⟩ :=
          sound_condition_block hexpression hending (by omega) hcondition hbody
        have hless := hnext.2
        obtain ⟨rest, rfl, hrest, hrows⟩ := ih (by omega) hothers
        cases hpure
        have hinner := (List.suffix_cons keyword inner).trans hsuffix
        exact ⟨rest, rfl, hrest.trans (hnext.1.trans hinner),
          .orIf hseparators hkeyword hread hblock hrows⟩
      · next hkind =>
        obtain ⟨keyword, inner, hpast, hkeyword⟩ :=
          exists_pastSeparators_eq_cons hkind (by decide)
        rw [hpast] at hseparators hsuffix hshort
        rw [List.length_cons] at hshort
        have hinner := (List.suffix_cons keyword inner).trans hsuffix
        rw [run_bind_of_ok (run_skipSeparators _ _), hpast,
          run_bind_of_ok (run_advance_cons _ _ _),
          run_bind_of_ok (run_peekKind_eq hending)] at hrun
        split at hrun
        · obtain ⟨body, _, hbody, hpure⟩ := run_bind_eq_ok_iff.mp hrun
          obtain ⟨rest, rfl, hrest, hblock⟩ :=
            (recognizes_block hexpression).sound hending (by omega) hbody
          cases hpure
          exact ⟨rest, rfl, hrest.1.trans hinner, .otherwiseBlock hseparators hkeyword hblock⟩
        · next hbrace =>
          obtain ⟨body, _, hbody, hpure⟩ := run_bind_eq_ok_iff.mp hrun
          obtain ⟨rest, rfl, hrest, hstatement⟩ :=
            (recognizes_statement hexpression).sound hending (by omega) hbody
          cases hpure
          exact ⟨rest, rfl, hrest.1.trans hinner,
            .otherwise hseparators hkeyword hbrace (hstatement .branch)⟩
      · cases hrun
        exact ⟨tokens, rfl, List.suffix_refl _, .none⟩

theorem complete_branches
    (hexpression : RecognizesPlaced bound expression Expression EndsExpression)
    (hending : ending.kind = .endOfInput) {count : Nat} (hcount : count ≤ bound) :
    ∀ {tokens rest : List Token} {rows : Branches Unit}, tokens.length < count →
      BranchRow tokens rest rows → Clear rest →
      ∃ nodes, (branches bound expression count).run ⟨tokens, ending⟩ =
        .ok (nodes, ⟨rest, ending⟩) ∧ nodes.shape = rows := by
  induction count with
  | zero =>
      intro tokens rest rows hlength
      exact absurd hlength (Nat.not_lt_zero _)
  | succ count ih =>
      intro tokens rest rows hlength hread hclear
      have hshort := (pastSeparators_suffix tokens).length_le
      rw [Rounds.ofCount_succ, branches, run_bind_of_ok (run_kindPastSeparators hending)]
      cases hread with
      | none =>
          refine ⟨.none, ?_, rfl⟩
          split
          · next hkind => exact absurd hkind hclear.noElif
          · next hkind => exact absurd hkind hclear.noElse
          · rfl
      | @orIf keyword _ inner middle next _ condition body others hseparators hkind hread hblock
          hrows =>
          have hpast := hseparators.eq_pastSeparators (by simp [hkind])
          rw [← hpast, List.length_cons] at hshort
          obtain ⟨conditionNode, bodyNode, hcondition, hbody, rfl, rfl, hnext⟩ :=
            complete_condition_block hexpression hending (by omega) hread hblock
          have hless := hnext.2
          obtain ⟨nodes, hnodes, rfl⟩ := ih (by omega) (by omega) hrows hclear
          refine ⟨.orIf conditionNode bodyNode nodes, ?_, rfl⟩
          rw [← hpast, nextKind_cons, hkind]
          dsimp only
          rw [run_bind_of_ok (run_skipSeparators _ _), ← hpast,
            run_bind_of_ok (run_advance_cons _ _ _), run_bind_of_ok hcondition,
            run_bind_of_ok hbody, run_bind_of_ok hnodes]
          rfl
      | @otherwiseBlock keyword _ inner _ body hseparators hkind hblock =>
          have hpast := hseparators.eq_pastSeparators (by simp [hkind])
          rw [← hpast, List.length_cons] at hshort
          have hbrace : nextKind inner = .leftBrace := by
            cases hblock with
            | intro hopening _ _ => exact hopening
          obtain ⟨node, hnode, rfl⟩ :=
            (recognizes_block hexpression).complete hending (by omega) hblock trivial
          refine ⟨.otherwise node, ?_, rfl⟩
          rw [← hpast, nextKind_cons, hkind]
          dsimp only
          rw [run_bind_of_ok (run_skipSeparators _ _), ← hpast,
            run_bind_of_ok (run_advance_cons _ _ _), run_bind_of_ok (run_peekKind_eq hending),
            if_pos hbrace, run_bind_of_ok hnode]
          rfl
      | @otherwise keyword _ inner _ body hseparators hkind hbrace hstatement =>
          have hpast := hseparators.eq_pastSeparators (by simp [hkind])
          rw [← hpast, List.length_cons] at hshort
          obtain ⟨node, hnode, rfl⟩ := (recognizes_statement hexpression).complete hending
            (by omega) hstatement hclear (fun henclosed => by cases henclosed)
          refine ⟨.otherwise node, ?_, rfl⟩
          rw [← hpast, nextKind_cons, hkind]
          dsimp only
          rw [run_bind_of_ok (run_skipSeparators _ _), ← hpast,
            run_bind_of_ok (run_advance_cons _ _ _), run_bind_of_ok (run_peekKind_eq hending),
            if_neg hbrace, run_bind_of_ok hnode]
          rfl

theorem sound_conditional
    (hexpression : RecognizesPlaced bound expression Expression EndsExpression)
    (hending : ending.kind = .endOfInput) {keyword : Token}
    (hkind : keyword.kind = .keyword .ifWord) (hlength : tokens.length < bound) {node : Node}
    {after : TokenStream}
    (hrun : (conditional bound expression).run ⟨keyword :: tokens, ending⟩ = .ok (node, after)) :
    ∃ rest, after = ⟨rest, ending⟩ ∧ Behind rest (keyword :: tokens) ∧
      Primary (keyword :: tokens) rest node.shape := by
  rw [conditional, run_bind_of_ok (run_advance_cons _ _ _)] at hrun
  obtain ⟨condition, _, hcondition, hrun⟩ := run_bind_eq_ok_iff.mp hrun
  obtain ⟨body, _, hbody, hrun⟩ := run_bind_eq_ok_iff.mp hrun
  obtain ⟨rows, _, hrows, hpure⟩ := run_bind_eq_ok_iff.mp hrun
  obtain ⟨middle, next, rfl, hnext, hread, hblock⟩ :=
    sound_condition_block hexpression hending hlength hcondition hbody
  have hless := hnext.2
  obtain ⟨rest, rfl, hrest, hbranches⟩ := sound_branches hexpression hending (by omega) hrows
  cases hpure
  exact ⟨rest, rfl, ((Behind.of_cons keyword tokens).trans hnext).trans_suffix hrest,
    .conditional hkind hread hblock hbranches⟩

theorem complete_conditional
    (hexpression : RecognizesPlaced bound expression Expression EndsExpression)
    (hending : ending.kind = .endOfInput) {keyword : Token} (hlength : tokens.length < bound)
    {middle next rest : List Token} {condition body : Tree Unit} {rows : Branches Unit}
    (hcondition : Expression .enclosed tokens middle condition) (hbody : Block middle next body)
    (hrows : BranchRow next rest rows) (hclear : Clear rest) :
    ∃ node, (conditional bound expression).run ⟨keyword :: tokens, ending⟩ =
      .ok (node, ⟨rest, ending⟩) ∧ node.shape = .conditional () condition body rows := by
  obtain ⟨conditionNode, bodyNode, hrun, hrunBody, rfl, rfl, hnext⟩ :=
    complete_condition_block hexpression hending hlength hcondition hbody
  have hless := hnext.2
  obtain ⟨nodes, hnodes, rfl⟩ :=
    complete_branches hexpression hending (Nat.le_refl _) (by omega) hrows hclear
  refine ⟨.conditional (keyword.span.through (nodes.lastSite bodyNode.site)) conditionNode bodyNode
    nodes, ?_, rfl⟩
  rw [conditional, run_bind_of_ok (run_advance_cons _ _ _), run_bind_of_ok hrun,
    run_bind_of_ok hrunBody, run_bind_of_ok hnodes]
  rfl

theorem sound_whileLoop
    (hexpression : RecognizesPlaced bound expression Expression EndsExpression)
    (hending : ending.kind = .endOfInput) {keyword : Token}
    (hkind : keyword.kind = .keyword .whileWord) (hlength : tokens.length < bound) {node : Node}
    {after : TokenStream}
    (hrun : (whileLoop bound expression).run ⟨keyword :: tokens, ending⟩ = .ok (node, after)) :
    ∃ rest, after = ⟨rest, ending⟩ ∧ Behind rest (keyword :: tokens) ∧
      Primary (keyword :: tokens) rest node.shape := by
  rw [whileLoop, run_bind_of_ok (run_advance_cons _ _ _)] at hrun
  obtain ⟨condition, _, hcondition, hrun⟩ := run_bind_eq_ok_iff.mp hrun
  obtain ⟨body, _, hbody, hpure⟩ := run_bind_eq_ok_iff.mp hrun
  obtain ⟨middle, rest, rfl, hrest, hread, hblock⟩ :=
    sound_condition_block hexpression hending hlength hcondition hbody
  cases hpure
  exact ⟨rest, rfl, (Behind.of_cons keyword tokens).trans hrest, .whileLoop hkind hread hblock⟩

theorem complete_whileLoop
    (hexpression : RecognizesPlaced bound expression Expression EndsExpression)
    (hending : ending.kind = .endOfInput) {keyword : Token} (hlength : tokens.length < bound)
    {middle rest : List Token} {condition body : Tree Unit}
    (hcondition : Expression .enclosed tokens middle condition) (hbody : Block middle rest body) :
    ∃ node, (whileLoop bound expression).run ⟨keyword :: tokens, ending⟩ =
      .ok (node, ⟨rest, ending⟩) ∧ node.shape = .whileLoop () condition body := by
  obtain ⟨conditionNode, bodyNode, hrun, hrunBody, rfl, rfl, _⟩ :=
    complete_condition_block hexpression hending hlength hcondition hbody
  refine ⟨.whileLoop (keyword.span.through bodyNode.site) conditionNode bodyNode, ?_, rfl⟩
  rw [whileLoop, run_bind_of_ok (run_advance_cons _ _ _), run_bind_of_ok hrun,
    run_bind_of_ok hrunBody]
  rfl

theorem sound_namespaceDef
    (hexpression : RecognizesPlaced bound expression Expression EndsExpression)
    (hending : ending.kind = .endOfInput) {keyword : Token}
    (hkind : keyword.kind = .keyword .namespaceWord) (hlength : tokens.length < bound)
    {node : Node} {after : TokenStream}
    (hrun : (namespaceDef bound expression).run ⟨keyword :: tokens, ending⟩ = .ok (node, after)) :
    ∃ rest, after = ⟨rest, ending⟩ ∧ Behind rest (keyword :: tokens) ∧
      Primary (keyword :: tokens) rest node.shape := by
  rw [namespaceDef, run_bind_of_ok (run_advance_cons _ _ _)] at hrun
  obtain ⟨name, _, hname, hrun⟩ := run_bind_eq_ok_iff.mp hrun
  obtain ⟨inner, rfl, hidentifier, rfl⟩ := (run_expect_eq_ok_iff hending (by decide)).mp hname
  obtain ⟨body, _, hbody, hpure⟩ := run_bind_eq_ok_iff.mp hrun
  rw [List.length_cons] at hlength
  obtain ⟨rest, rfl, hrest, hblock⟩ :=
    (recognizes_block hexpression).sound hending (by omega) hbody
  cases hpure
  have hinner := (Behind.of_cons keyword (name :: inner)).trans (.of_cons name inner)
  exact ⟨rest, rfl, hinner.trans hrest, .namespaceDef hkind hidentifier hblock⟩

theorem complete_namespaceDef
    (hexpression : RecognizesPlaced bound expression Expression EndsExpression)
    (hending : ending.kind = .endOfInput) {keyword name : Token} (hname : name.kind = .identifier)
    (hlength : tokens.length < bound) {rest : List Token} {body : Tree Unit}
    (hbody : Block tokens rest body) :
    ∃ node, (namespaceDef bound expression).run ⟨keyword :: name :: tokens, ending⟩ =
      .ok (node, ⟨rest, ending⟩) ∧ node.shape = .namespaceDef () name.lexeme body := by
  obtain ⟨node, hnode, rfl⟩ :=
    (recognizes_block hexpression).complete hending (by omega) hbody trivial
  refine ⟨.namespaceDef (keyword.span.through node.site) name.lexeme node, ?_, rfl⟩
  rw [namespaceDef, run_bind_of_ok (run_advance_cons _ _ _),
    run_bind_of_ok (run_expect_cons hname), run_bind_of_ok hnode]
  rfl

/-! ## All primary operands -/

/-- A number or a string is read from its one token if the token denotes it. -/
theorem sound_numberLiteral {token : Token}
    (hkind : token.kind = .int ∨ token.kind = .long ∨ token.kind = .double) {node : Node}
    {after : TokenStream}
    (hrun : numberLiteral.run ⟨token :: tokens, ending⟩ = .ok (node, after)) :
    after = ⟨tokens, ending⟩ ∧ Primary (token :: tokens) tokens node.shape := by
  rw [numberLiteral, run_bind_of_ok (run_advance_cons _ _ _)] at hrun
  split at hrun
  · next value hvalue =>
    cases hrun
    exact ⟨rfl, .number hkind hvalue⟩
  · exact absurd hrun run_failAt_ne_ok

theorem sound_stringLiteral {token : Token} (hkind : token.kind = .string) {node : Node}
    {after : TokenStream}
    (hrun : stringLiteral.run ⟨token :: tokens, ending⟩ = .ok (node, after)) :
    after = ⟨tokens, ending⟩ ∧ Primary (token :: tokens) tokens node.shape := by
  rw [stringLiteral, run_bind_of_ok (run_advance_cons _ _ _)] at hrun
  split at hrun
  · next value hvalue =>
    cases hrun
    exact ⟨rfl, .string hkind hvalue⟩
  · exact absurd hrun run_failAt_ne_ok

theorem complete_numberLiteral {token : Token} {value : Number}
    (hliteral : token.literal = some (.number value)) :
    numberLiteral.run ⟨token :: tokens, ending⟩ =
      .ok (.number token.span value, ⟨tokens, ending⟩) := by
  rw [numberLiteral, run_bind_of_ok (run_advance_cons _ _ _), hliteral]
  rfl

theorem complete_stringLiteral {token : Token} {value : String}
    (hliteral : token.literal = some (.string value)) :
    stringLiteral.run ⟨token :: tokens, ending⟩ =
      .ok (.string token.span value, ⟨tokens, ending⟩) := by
  rw [stringLiteral, run_bind_of_ok (run_advance_cons _ _ _), hliteral]
  rfl

theorem recognizes_primary
    (hexpression : RecognizesPlaced bound expression Expression EndsExpression) :
    Recognizes (bound + 1) (primary bound expression) Tree.shape Primary Clear where
  sound := by
    intro ending tokens node after hending hlength hrun
    rw [primary, run_bind_of_ok (run_peekKind_eq hending)] at hrun
    cases tokens with
    | nil => exact absurd hrun run_fail_ne_ok
    | cons token tokens =>
        rw [List.length_cons] at hlength
        have hshort : tokens.length < bound := by omega
        have hbehind := Behind.of_cons token tokens
        rw [nextKind_cons] at hrun
        split at hrun
        · next hkind =>
          obtain ⟨rfl, hread⟩ := sound_numberLiteral (.inl hkind) hrun
          exact ⟨tokens, rfl, hbehind, hread⟩
        · next hkind =>
          obtain ⟨rfl, hread⟩ := sound_numberLiteral (.inr (.inl hkind)) hrun
          exact ⟨tokens, rfl, hbehind, hread⟩
        · next hkind =>
          obtain ⟨rfl, hread⟩ := sound_numberLiteral (.inr (.inr hkind)) hrun
          exact ⟨tokens, rfl, hbehind, hread⟩
        · next hkind =>
          obtain ⟨rfl, hread⟩ := sound_stringLiteral hkind hrun
          exact ⟨tokens, rfl, hbehind, hread⟩
        · next hkind =>
          cases hrun
          exact ⟨tokens, rfl, hbehind, .identifier hkind⟩
        · next hkind => exact sound_parenthesized hexpression hending hkind hshort hrun
        · next hkind => exact sound_listLiteral hexpression hending hkind hshort hrun
        · next hkind => exact sound_conditional hexpression hending hkind hshort hrun
        · next hkind => exact sound_whileLoop hexpression hending hkind hshort hrun
        · next hkind => exact sound_namespaceDef hexpression hending hkind hshort hrun
        · exact absurd hrun run_fail_ne_ok
  complete := by
    intro ending tokens rest tree hending hlength hread hclear
    rw [primary, run_bind_of_ok (run_peekKind_eq hending)]
    cases hread with
    | @number token _ value hkind hliteral =>
        have hrun : numberLiteral.run ⟨token :: rest, ending⟩ = .ok (_, ⟨rest, ending⟩) :=
          complete_numberLiteral hliteral
        refine ⟨.number token.span value, ?_, rfl⟩
        rcases hkind with hkind | hkind | hkind <;> rw [nextKind_cons, hkind] <;> exact hrun
    | @string token _ value hkind hliteral =>
        refine ⟨.string token.span value, ?_, rfl⟩
        rw [nextKind_cons, hkind]
        exact complete_stringLiteral hliteral
    | @identifier token _ hkind =>
        refine ⟨.identifier token.span token.lexeme, ?_, rfl⟩
        rw [nextKind_cons, hkind]
        rfl
    | parenthesized hkind hinner hclose =>
        rw [List.length_cons] at hlength
        rw [nextKind_cons, hkind]
        exact complete_parenthesized hexpression hending (by omega) hinner hclose
    | list hkind hitems hclose =>
        rw [List.length_cons] at hlength
        rw [nextKind_cons, hkind]
        exact complete_listLiteral hexpression hending (by omega) hitems hclose
    | conditional hkind hcondition hbody hrows =>
        rw [List.length_cons] at hlength
        rw [nextKind_cons, hkind]
        exact complete_conditional hexpression hending (by omega) hcondition hbody hrows hclear
    | whileLoop hkind hcondition hbody =>
        rw [List.length_cons] at hlength
        rw [nextKind_cons, hkind]
        exact complete_whileLoop hexpression hending (by omega) hcondition hbody
    | namespaceDef hkind hname hbody =>
        simp only [List.length_cons] at hlength
        rw [nextKind_cons, hkind]
        exact complete_namespaceDef hexpression hending hname (by omega) hbody

end Script.Grammar
