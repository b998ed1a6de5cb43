/-
# The parser goes forward and ends

Whatever the row of tokens, each routine of the parser goes on from where it stands and stops
at the end of the row at the latest. Its loops end before their rounds are spent and nested
expressions before their levels are, once there are more of them than tokens left: any parser
may stand behind the last, since it is never reached.
-/

import Script.Proofs.Parser.Depth

namespace Script

namespace Parser

open Grammar

/-- The routines of the parser, each with the type of its result. -/
inductive Routine : Type → Type
  | advance : Routine Token
  | accept (kind : Token.Kind) : Routine Bool
  | expect (kind : Token.Kind) (problem : SyntaxProblem) (h : kind ≠ .endOfInput) : Routine Token
  | skipSeparators : Routine Unit
  | statementRow (close : Token.Kind) : Routine Node
  | block : Routine Node
  | items (close : Token.Kind) (problem : SyntaxProblem) (h : close ≠ .endOfInput) :
      Routine (List Node × Token)
  | statement : Routine Node
  | expression : Routine Node
  | declaration : Routine Node
  | functionDef : Routine Node
  | assignment : Routine Node
  | logical : Routine Node
  | comparison : Routine Node
  | sum : Routine Node
  | product : Routine Node
  | signed : Routine Node
  | operand : Routine Node
  | primary : Routine Node
  | conditional : Routine Node
  | whileLoop : Routine Node
  | namespaceDef : Routine Node

namespace Routine

/-- A routine with rounds for its loops and a parser for the expressions inside. -/
def parser (rounds : Rounds) (expression : Parser Node) : {α : Type} → Routine α → Parser α
  | _, advance => Parser.advance
  | _, accept kind => Parser.accept kind
  | _, expect kind problem _ => Parser.expect kind problem
  | _, skipSeparators => Parser.skipSeparators
  | _, statementRow close => Parser.statementRow close rounds expression
  | _, block => Parser.block rounds expression
  | _, items close problem _ => Parser.items close problem rounds expression
  | _, statement => Parser.statement expression
  | _, .expression => expression
  | _, declaration => Parser.declaration expression
  | _, functionDef => Parser.functionDef rounds expression
  | _, assignment => Parser.assignment rounds expression
  | _, logical => Parser.logical rounds expression
  | _, comparison => Parser.comparison rounds expression
  | _, sum => Parser.sum rounds expression
  | _, product => Parser.product rounds expression
  | _, signed => Parser.signed rounds expression
  | _, operand => Parser.operand rounds expression
  | _, primary => Parser.primary rounds expression
  | _, conditional => Parser.conditional rounds expression
  | _, whileLoop => Parser.whileLoop rounds expression
  | _, namespaceDef => Parser.namespaceDef rounds expression

/-- How many tokens a routine takes at least if it succeeds. Only where there may be nothing
to take is it none: at the end of the row, where a token of some kind is not next, and where
no separator or no statement is. -/
def least {α : Type} : Routine α → Nat
  | advance | accept _ | skipSeparators | statementRow _ => 0
  | expect .. | block | items .. | statement | expression | declaration | functionDef
  | assignment | logical | comparison | sum | product | signed | operand | primary
  | conditional | whileLoop | namespaceDef => 1

end Routine

section Routine

variable {good : String → Prop} {limit : Nat} {rounds rounds' : Rounds}
  {expression expression' : Parser Node}

/-- Each routine proceeds as the parser for the expressions inside does. -/
theorem proceed_routine
    (hexpression : Proceed good limit 1 expression expression' (Tree.Named good))
    (hrounds : Suffice limit rounds rounds') {α : Type} (routine : Routine α) :
    Proceed good limit routine.least (routine.parser rounds expression)
      (routine.parser rounds' expression') fun _ => True := by
  have forget {least limit' : Nat} {α : Type} {parser parser' : Parser α} {post : α → Prop}
      (h : Proceed good limit' least parser parser' post) (hlimit : limit ≤ limit') :
      Proceed good limit least parser parser' fun _ => True :=
    (h.shorter hlimit).imp fun _ _ => trivial
  have front {parser parser' : Parser Node} {post : TokenStream → Node → Prop}
      (h : ∀ stream : TokenStream, stream.Sound good → stream.tail.rest.length < limit →
        ProceedAt stream 1 parser parser' (post stream)) :
      Proceed good limit 1 parser parser' fun _ => True := by
    intro stream hsound hlength
    have htail := Nat.lt_of_le_of_lt (List.tail_suffix stream.rest).length_le hlength
    exact (h stream hsound htail).mono (Nat.le_refl 1) fun _ _ => trivial
  have hsame := Nat.le_refl limit
  have hless := Nat.le_succ limit
  cases routine with
  | advance => exact proceed_advance
  | accept kind => exact proceed_accept kind
  | expect kind problem h => exact forget (proceed_expect problem h) hsame
  | skipSeparators => exact proceed_skipSeparators
  | statementRow close => exact forget (proceed_statementRow hexpression hrounds close) hsame
  | block => exact forget (proceed_block hexpression hrounds) hsame
  | items close problem h =>
      exact forget (proceed_items hexpression hrounds close problem h) hsame
  | statement => exact forget (proceed_statement hexpression) hsame
  | expression => exact forget hexpression hsame
  | declaration => exact front fun _ => proceedAt_declaration hexpression
  | functionDef => exact front fun _ => proceedAt_functionDef hexpression hrounds
  | assignment => exact forget (proceed_assignment hexpression hrounds) hless
  | logical => exact forget (proceed_logical hexpression hrounds) hless
  | comparison => exact forget (proceed_comparison hexpression hrounds) hless
  | sum => exact forget (proceed_sum hexpression hrounds) hless
  | product => exact forget (proceed_product hexpression hrounds) hless
  | signed => exact forget (proceed_signed hexpression hrounds) hless
  | operand => exact forget (proceed_operand hexpression hrounds) hless
  | primary => exact forget (proceed_primary hexpression hrounds) hless
  | conditional => exact front fun _ => proceedAt_conditional hexpression hrounds
  | whileLoop => exact front fun _ => proceedAt_whileLoop hexpression hrounds
  | namespaceDef => exact front fun _ => proceedAt_namespaceDef hexpression hrounds

end Routine

/-! ## Looking past separators -/

theorem exists_distance_pastSeparators {ending : Token} (hending : ending.kind = .endOfInput)
    (tokens : List Token) :
    ∃ distance ≤ tokens.length,
      (∀ nearer < distance, ((TokenStream.mk tokens ending).peekAt nearer).kind = .separator) ∧
      ((TokenStream.mk tokens ending).peekAt distance).kind ≠ .separator ∧
      pastSeparators tokens = tokens.drop distance := by
  induction tokens with
  | nil =>
      refine ⟨0, Nat.le_refl 0, nofun, ?_, rfl⟩
      have hkind : ending.kind ≠ .separator := by rw [hending]; decide
      exact hkind
  | cons token tokens ih =>
      by_cases hkind : token.kind = .separator
      · obtain ⟨distance, hdistance, hnearer, hfar, hdrop⟩ := ih
        refine ⟨distance + 1, Nat.succ_le_succ hdistance, fun nearer hless => ?_, hfar, ?_⟩
        · cases nearer with
          | zero => exact hkind
          | succ nearer => exact hnearer nearer (Nat.lt_of_succ_lt_succ hless)
        · rw [pastSeparators_cons_of_separator hkind, hdrop, List.drop_succ_cons]
      · exact ⟨0, Nat.zero_le _, nofun, hkind, pastSeparators_eq_self hkind⟩

/-! ## All routines -/

/-- How the parser goes through the tokens of a stream. -/
structure Traverses (start : TokenStream) : Prop where
  /-- A routine that succeeds has taken its tokens, and none behind the last. -/
  forward : ∀ {α : Type} (routine : Routine α) (bound depth current : Nat) {a : α}
    {after : TokenStream}, current ≤ start.rest.length →
    (routine.parser bound (expression depth)).run (start.drop current) = .ok (a, after) →
    ∃ reached, current + routine.least ≤ reached ∧ reached ≤ start.rest.length ∧
      after = start.drop reached
  /-- A routine runs alike with any rounds for its loops and any levels for nested expressions,
  as soon as there are more of both than tokens left. What stands behind the last round or the
  last level is never reached, whatever it is. -/
  unbounded : ∀ {α : Type} (routine : Routine α) (current : Nat) (rounds rounds' : Rounds)
    (levels : Nat) (deepest : Parser Node), start.rest.length - current < rounds.count →
    start.rest.length - current < rounds'.count → start.rest.length - current < levels →
    (routine.parser rounds' (limited rounds' deepest levels)).run (start.drop current) =
      (routine.parser rounds (expression rounds)).run (start.drop current)
  /-- Looking past separators ends at the first token that is none. -/
  lookahead : ∀ current, ∃ distance ≤ start.rest.length - current,
    (∀ nearer < distance, ((start.drop current).peekAt nearer).kind = .separator) ∧
    ((start.drop current).peekAt distance).kind ≠ .separator ∧
    kindPastSeparators.run (start.drop current) =
      .ok (((start.drop current).peekAt distance).kind, start.drop current) ∧
    skipSeparators.run (start.drop current) = .ok ((), (start.drop current).drop distance)

theorem traverses {good : String → Prop} {start : TokenStream} (hsound : start.Sound good) :
    Traverses start where
  forward routine bound depth current a after hcurrent hrun := by
    have hproceed := proceed_routine (proceed_expression _ depth) (.refl _ bound) routine
      (start.drop current) (hsound.drop current) (Nat.lt_succ_self _)
    obtain ⟨count, hleast, hcount, rfl⟩ := hproceed.ahead hrun
    rw [TokenStream.rest_drop, List.length_drop] at hcount
    exact ⟨current + count, by omega, by omega, start.drop_drop current count⟩
  unbounded routine current rounds rounds' levels deepest hrounds hrounds' hlevels := by
    have hexpression := @proceed_limited good _ rounds rounds' levels deepest hrounds hrounds'
      hlevels
    have hloops := Suffice.of_le (Nat.succ_le_of_lt hrounds) (Nat.succ_le_of_lt hrounds')
    have hlength : (start.drop current).rest.length < (start.rest.length - current).succ := by
      rw [TokenStream.rest_drop, List.length_drop]
      exact Nat.lt_succ_self _
    exact (proceed_routine hexpression hloops routine _ (hsound.drop current) hlength).alike.symm
  lookahead current := by
    obtain ⟨distance, hdistance, hnearer, hfar, hdrop⟩ :=
      exists_distance_pastSeparators hsound.ending (start.drop current).rest
    have hpast : (start.drop current).pastSeparators = (start.drop current).drop distance :=
      congrArg (TokenStream.mk · start.ending) hdrop
    rw [TokenStream.rest_drop, List.length_drop] at hdistance
    refine ⟨distance, hdistance, hnearer, hfar, ?_, ?_⟩
    · rw [← TokenStream.peek_drop, ← hpast]
      rfl
    · rw [← hpast]
      rfl

/-! ## Whole programs -/

/-- In every row of tokens the routines go forward and end, and so does the reading of the
whole row: with any rounds and any levels of which there are more than tokens, and with any
parsers behind the last of them, it gives the same tree or the same error. -/
theorem goes_forward_and_ends (tokens : List Token) :
    Traverses (TokenStream.ofTokens tokens) ∧
      ∀ (rounds : Rounds) (levels : Nat) (deepest : Parser Node),
        (TokenStream.ofTokens tokens).rest.length < rounds.count →
        (TokenStream.ofTokens tokens).rest.length < levels →
        (∃ tree after, (statementRow .endOfInput rounds (limited rounds deepest levels)).run
            (TokenStream.ofTokens tokens) = .ok (tree, after) ∧
          Tree.ofTokens tokens = .ok tree) ∨
        ∃ error, (statementRow .endOfInput rounds (limited rounds deepest levels)).run
            (TokenStream.ofTokens tokens) = .error error ∧
          Tree.ofTokens tokens = .error error := by
  have htraverses := traverses (TokenStream.sound_ofTokens tokens)
  refine ⟨htraverses, fun rounds levels deepest hrounds hlevels => ?_⟩
  have henough : (TokenStream.ofTokens tokens).rest.length <
      (Rounds.ofCount ((TokenStream.ofTokens tokens).rest.length + 1)).count := by
    rw [Rounds.count_ofCount]
    exact Nat.lt_succ_self _
  have hrun := htraverses.unbounded (.statementRow .endOfInput) 0 _ rounds levels deepest
    henough hrounds hlevels
  have hprogram : Tree.ofTokens tokens =
      ((statementRow .endOfInput rounds (limited rounds deepest levels)).run
        (TokenStream.ofTokens tokens)).map (·.1) := by
    rw [Tree.ofTokens, run_program]
    exact congrArg (Except.map Prod.fst) hrun.symm
  rw [hprogram]
  cases hresult : (statementRow .endOfInput rounds (limited rounds deepest levels)).run
      (TokenStream.ofTokens tokens) with
  | ok result => exact .inl ⟨result.1, result.2, rfl, rfl⟩
  | error error => exact .inr ⟨error, rfl, rfl⟩

/-- A statement, a separator and the keyword of a conditional. The row has no end token and
breaks off inside the conditional. -/
def brokenRow : List Token :=
  [⟨.int, "1", some (.number (.int 1)), default⟩, ⟨.separator, ";", none, default⟩,
    ⟨.keyword .ifWord, "if", none, default⟩]

/-- Five rounds, behind which an end of input would be called an invalid target. -/
def fiveRounds : Rounds :=
  .more (.more (.more (.more (.more (.spent fun _ => fail .invalidTarget)))))

theorem goes_forward_and_ends_brokenRow :
    (∃ reached, 0 + 1 ≤ reached ∧ reached ≤ 3 ∧
      (TokenStream.ofTokens brokenRow).drop 1 = (TokenStream.ofTokens brokenRow).drop reached) ∧
    (Routine.conditional.parser fiveRounds (limited fiveRounds (fail .invalidTarget) 2)).run
        ((TokenStream.ofTokens brokenRow).drop 2) =
      (Routine.conditional.parser (.ofCount 2) (expression (.ofCount 2))).run
        ((TokenStream.ofTokens brokenRow).drop 2) ∧
    ∃ error, (statementRow .endOfInput fiveRounds (limited fiveRounds (fail .invalidTarget) 4)).run
        (TokenStream.ofTokens brokenRow) = .error error ∧
      Tree.ofTokens brokenRow = .error error := by
  obtain ⟨htraverses, hprogram⟩ := goes_forward_and_ends brokenRow
  have hstatement : (Routine.statement.parser (.ofCount 3) (expression (.ofCount 3))).run
      ((TokenStream.ofTokens brokenRow).drop 0) =
      .ok (.number default (.int 1), (TokenStream.ofTokens brokenRow).drop 1) := rfl
  have hconditional := htraverses.unbounded .conditional 2 (.ofCount 2) fiveRounds 2
    (fail .invalidTarget) (by decide) (by decide) (by decide)
  refine ⟨htraverses.forward .statement 3 3 0 (by decide) hstatement, hconditional, ?_⟩
  refine (hprogram fiveRounds 4 (fail .invalidTarget) (by decide) (by decide)).resolve_left ?_
  rintro ⟨tree, after, hrun, _⟩
  cases hrun

end Parser

end Script
