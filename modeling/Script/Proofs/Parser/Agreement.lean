/-
# Parsers go by what tokens say

Every parser of the grammar agrees with itself, because its parts do. So two rows of
tokens that say the same are programs of the same shape, or are refused with the same
problem.
-/

import Script.Proofs.Grammar.Combination
import Script.Proofs.Parser.Word

namespace Script

open Grammar

namespace Parser

variable {expression : Parser Node} (hexpression : Agrees Tree.shape expression expression)

include hexpression

theorem agrees_spaced : Agrees Tree.shape (spaced expression) (spaced expression) := by
  refine agrees_skipSeparators.bind fun _ _ _ => ?_
  refine hexpression.bind fun node node' hnode => ?_
  exact agrees_skipSeparators.bind fun _ _ _ => agrees_pure hnode

theorem agrees_items (close : Token.Kind) (problem : SyntaxProblem) (bound : Nat) :
    Agrees (fun result => result.1.map Tree.shape) (items close problem bound expression)
      (items close problem bound expression) := by
  refine agrees_skipSeparators.bind fun _ _ _ => ?_
  refine (agrees_itemsBefore (agrees_spaced hexpression) close bound).bind ?_
  intro nodes nodes' hnodes
  exact (agrees_expect close problem).bind fun _ _ _ => agrees_pure hnodes

/-! ## Statements -/

theorem agrees_statement :
    Agrees Tree.shape (statement expression) (statement expression) := by
  refine agrees_peek.bind fun token token' hword => ?_
  have hkind : token.kind = token'.kind := congrArg Word.kind hword
  rw [hkind]
  split
  · refine agrees_advance.bind fun _ _ _ => agrees_byKind fun next => ?_
    refine agrees_ite Iff.rfl (agrees_pure rfl) ?_
    refine hexpression.bind fun value value' hvalue => agrees_pure ?_
    rw [Tree.shape, Tree.shape, hvalue]
  · exact agrees_advance.bind fun _ _ _ => agrees_pure rfl
  · exact agrees_advance.bind fun _ _ _ => agrees_pure rfl
  · exact hexpression

omit hexpression in
theorem agrees_statementsBefore {item : Parser Node} (h : Agrees Tree.shape item item)
    (close : Token.Kind) (bound : Nat) :
    Agrees (List.map Tree.shape) (statementsBefore close item bound)
      (statementsBefore close item bound) := by
  induction bound with
  | zero => exact agrees_fail _
  | succ bound ih =>
      refine agrees_skipSeparators.bind fun _ _ _ => agrees_byKind fun next => ?_
      refine agrees_ite Iff.rfl (agrees_pure rfl) ?_
      refine h.bind fun first first' hfirst => agrees_byKind fun next => ?_
      refine agrees_ite Iff.rfl (agrees_pure ?_) ?_
      · rw [List.map_singleton, List.map_singleton, hfirst]
      · have hothers := ih.bind fun others others' hothers =>
          agrees_pure (show (first :: others).map Tree.shape = (first' :: others').map Tree.shape by
            rw [List.map_cons, List.map_cons, hfirst, hothers])
        refine agrees_ite Iff.rfl ?_ hothers
        have hfail : Agrees (id : PUnit → PUnit) (fail .expectedSeparator)
            (fail .expectedSeparator) := agrees_fail _
        exact hfail.bind fun _ _ _ => hothers

theorem agrees_statementRow (close : Token.Kind) (bound : Nat) :
    Agrees Tree.shape (statementRow close bound expression)
      (statementRow close bound expression) := by
  refine agrees_peek.bind fun token token' _ => ?_
  refine (agrees_statementsBefore (agrees_statement hexpression) close bound).bind ?_
  intro statements statements' hstatements
  refine agrees_pure ?_
  rw [Tree.shape, Tree.shape, Tree.shapeEach_eq_map, Tree.shapeEach_eq_map, hstatements]

theorem agrees_block (bound : Nat) :
    Agrees Tree.shape (block bound expression) (block bound expression) := by
  refine (agrees_expect _ _).bind fun _ _ _ => ?_
  refine (agrees_statementRow hexpression _ bound).bind fun body body' hbody => ?_
  refine (agrees_expect _ _).bind fun _ _ _ => agrees_pure ?_
  rw [Tree.shape_withSite, Tree.shape_withSite, hbody]

/-! ## Operands -/

omit hexpression in
theorem agrees_numberLiteral : Agrees Tree.shape numberLiteral numberLiteral := by
  refine agrees_advance.bind fun token token' hword => ?_
  have hliteral : token.literal = token'.literal := congrArg Word.literal hword
  rw [hliteral]
  split
  · exact agrees_pure rfl
  · exact agrees_failAt token token' _

omit hexpression in
theorem agrees_stringLiteral : Agrees Tree.shape stringLiteral stringLiteral := by
  refine agrees_advance.bind fun token token' hword => ?_
  have hliteral : token.literal = token'.literal := congrArg Word.literal hword
  rw [hliteral]
  split
  · exact agrees_pure rfl
  · exact agrees_failAt token token' _

theorem agrees_parenthesized :
    Agrees Tree.shape (parenthesized expression) (parenthesized expression) := by
  refine agrees_advance.bind fun _ _ _ => ?_
  refine (agrees_spaced hexpression).bind fun node node' hnode => ?_
  refine (agrees_expect _ _).bind fun _ _ _ => agrees_pure ?_
  rw [Tree.shape_withSite, Tree.shape_withSite, hnode]

theorem agrees_listLiteral (bound : Nat) :
    Agrees Tree.shape (listLiteral bound expression) (listLiteral bound expression) := by
  refine agrees_advance.bind fun _ _ _ => ?_
  refine (agrees_items hexpression _ _ bound).bind fun result result' hnodes => agrees_pure ?_
  rw [Tree.shape, Tree.shape, Tree.shapeEach_eq_map, Tree.shapeEach_eq_map, hnodes]

theorem agrees_branches (bound count : Nat) :
    Agrees Branches.shape (branches bound expression count) (branches bound expression count) := by
  induction count with
  | zero => exact agrees_fail _
  | succ count ih =>
      refine agrees_kindPastSeparators.bind ?_
      rintro kind _ rfl
      dsimp only [id]
      split
      · refine agrees_skipSeparators.bind fun _ _ _ => agrees_advance.bind fun _ _ _ => ?_
        refine hexpression.bind fun condition condition' hcondition => ?_
        refine (agrees_block hexpression bound).bind fun body body' hbody => ?_
        refine ih.bind fun rest rest' hrest => agrees_pure ?_
        rw [Branches.shape, Branches.shape, hcondition, hbody, hrest]
      · refine agrees_skipSeparators.bind fun _ _ _ => agrees_advance.bind fun _ _ _ => ?_
        refine agrees_byKind fun next => agrees_ite Iff.rfl ?_ ?_
        · refine (agrees_block hexpression bound).bind fun body body' hbody => agrees_pure ?_
          rw [Branches.shape, Branches.shape, hbody]
        · refine (agrees_statement hexpression).bind fun body body' hbody => agrees_pure ?_
          rw [Branches.shape, Branches.shape, hbody]
      · exact agrees_pure rfl

theorem agrees_conditional (bound : Nat) :
    Agrees Tree.shape (conditional bound expression) (conditional bound expression) := by
  refine agrees_advance.bind fun _ _ _ => ?_
  refine hexpression.bind fun condition condition' hcondition => ?_
  refine (agrees_block hexpression bound).bind fun body body' hbody => ?_
  refine (agrees_branches hexpression bound bound).bind fun rest rest' hrest => agrees_pure ?_
  rw [Tree.shape, Tree.shape, hcondition, hbody, hrest]

theorem agrees_whileLoop (bound : Nat) :
    Agrees Tree.shape (whileLoop bound expression) (whileLoop bound expression) := by
  refine agrees_advance.bind fun _ _ _ => ?_
  refine hexpression.bind fun condition condition' hcondition => ?_
  refine (agrees_block hexpression bound).bind fun body body' hbody => agrees_pure ?_
  rw [Tree.shape, Tree.shape, hcondition, hbody]

omit hexpression in
/-- A token that is expected to be an identifier is seen as its name. -/
theorem agrees_name (problem : SyntaxProblem) :
    Agrees Token.lexeme (expect .identifier problem) (expect .identifier problem) := by
  intro stream stream' hwords
  have hword := TokenStream.word_peek hwords
  have hkind : stream.peek.kind = stream'.peek.kind := congrArg Word.kind hword
  rw [expect, run_bind_of_ok (run_peekKind stream), run_bind_of_ok (run_peekKind stream'), ← hkind]
  split
  · next hidentifier =>
    exact congrArg Except.ok
      (Prod.ext (Token.lexeme_eq_of_word hword hidentifier) (TokenStream.words_tail hwords))
  · exact agrees_fail problem _ _ hwords

theorem agrees_namespaceDef (bound : Nat) :
    Agrees Tree.shape (namespaceDef bound expression) (namespaceDef bound expression) := by
  refine agrees_advance.bind fun _ _ _ => ?_
  refine (agrees_name _).bind fun name name' hname => ?_
  refine (agrees_block hexpression bound).bind fun body body' hbody => agrees_pure ?_
  rw [Tree.shape, Tree.shape, hname, hbody]

theorem agrees_primary (bound : Nat) :
    Agrees Tree.shape (primary bound expression) (primary bound expression) := by
  intro stream stream' hwords
  have hword := TokenStream.word_peek hwords
  have hkind : stream.peek.kind = stream'.peek.kind := congrArg Word.kind hword
  rw [primary, run_bind_of_ok (run_peekKind stream), run_bind_of_ok (run_peekKind stream'), ← hkind]
  split
  · exact agrees_numberLiteral _ _ hwords
  · exact agrees_numberLiteral _ _ hwords
  · exact agrees_numberLiteral _ _ hwords
  · exact agrees_stringLiteral _ _ hwords
  · next hidentifier =>
    have hname := Token.lexeme_eq_of_word hword hidentifier
    exact congrArg Except.ok
      (Prod.ext (congrArg (Tree.identifier ()) hname) (TokenStream.words_tail hwords))
  · exact agrees_parenthesized hexpression _ _ hwords
  · exact agrees_listLiteral hexpression bound _ _ hwords
  · exact agrees_conditional hexpression bound _ _ hwords
  · exact agrees_whileLoop hexpression bound _ _ hwords
  · exact agrees_namespaceDef hexpression bound _ _ hwords
  · exact agrees_fail _ _ _ hwords

theorem agrees_trailers (bound count : Nat) {object object' : Node}
    (hobject : object.shape = object'.shape) :
    Agrees Tree.shape (trailers bound expression count object)
      (trailers bound expression count object') := by
  induction count generalizing object object' with
  | zero => exact agrees_fail _
  | succ count ih =>
      refine agrees_byKind fun next => ?_
      split
      · refine agrees_advance.bind fun _ _ _ => (agrees_name _).bind fun name name' hname => ?_
        refine ih ?_
        rw [Tree.shape, Tree.shape, hobject, hname]
      · refine agrees_advance.bind fun _ _ _ => ?_
        refine (agrees_spaced hexpression).bind fun key key' hkey => ?_
        refine (agrees_expect _ _).bind fun _ _ _ => ih ?_
        rw [Tree.shape, Tree.shape, hobject, hkey]
      · refine agrees_advance.bind fun _ _ _ => ?_
        refine (agrees_items hexpression _ _ bound).bind fun result result' hnodes => ih ?_
        rw [Tree.shape, Tree.shape, hobject, Tree.shapeEach_eq_map, Tree.shapeEach_eq_map, hnodes]
      · exact agrees_pure hobject

theorem agrees_operand (bound : Nat) :
    Agrees Tree.shape (operand bound expression) (operand bound expression) :=
  (agrees_primary hexpression bound).bind fun _ _ hobject =>
    agrees_trailers hexpression bound bound hobject

/-! ## Operations -/

section Operators

omit hexpression

variable {inner : Parser Node} (hinner : Agrees Tree.shape inner inner)

include hinner

theorem agrees_operations (operator? : Token.Kind → Option BinaryOperator) (bound : Nat)
    {left left' : Node} (hleft : left.shape = left'.shape) :
    Agrees Tree.shape (operations operator? inner bound left)
      (operations operator? inner bound left') := by
  induction bound generalizing left left' with
  | zero => exact agrees_fail _
  | succ bound ih =>
      refine agrees_byKind fun next => ?_
      split
      · exact agrees_pure hleft
      · refine agrees_advance.bind fun _ _ _ => hinner.bind fun right right' hright => ih ?_
        rw [Tree.shape, Tree.shape, hleft, hright]

theorem agrees_leftAssociative (operator? : Token.Kind → Option BinaryOperator) (bound : Nat) :
    Agrees Tree.shape (leftAssociative operator? bound inner)
      (leftAssociative operator? bound inner) :=
  hinner.bind fun _ _ hfirst => agrees_operations hinner operator? bound hfirst

omit hinner in
/-- The operators that are taken, without their spans, and what the tokens behind them say. -/
theorem takeOperators_eq_of_words (operator? : Token.Kind → Option UnaryOperator) :
    ∀ {tokens others : List Token}, tokens.map Token.word = others.map Token.word →
      (takeOperators operator? tokens).1.map Prod.fst =
          (takeOperators operator? others).1.map Prod.fst ∧
        (takeOperators operator? tokens).2.map Token.word =
          (takeOperators operator? others).2.map Token.word
  | [], [], _ => ⟨rfl, rfl⟩
  | token :: tokens, other :: others, h => by
    obtain ⟨hword, hrest⟩ := List.cons.inj h
    have hkind : token.kind = other.kind := congrArg Word.kind hword
    obtain ⟨hoperators, htokens⟩ := takeOperators_eq_of_words operator? hrest
    rw [takeOperators, takeOperators, hkind]
    split
    · exact ⟨rfl, h⟩
    · exact ⟨congrArg (_ :: ·) hoperators, htokens⟩

omit hinner in
theorem foldr_applyShape_eq {operators others : List (UnaryOperator × Span)}
    (h : operators.map Prod.fst = others.map Prod.fst) (tree : Tree Unit) :
    operators.foldr applyShape tree = others.foldr applyShape tree := by
  have hfold (operators : List (UnaryOperator × Span)) :
      operators.foldr applyShape tree = (operators.map Prod.fst).foldr (.unary ()) tree := by
    rw [List.foldr_map]
    rfl
  rw [hfold, hfold, h]

theorem agrees_rightAssociative (operator? : Token.Kind → Option UnaryOperator) :
    Agrees Tree.shape (rightAssociative operator? inner) (rightAssociative operator? inner) := by
  intro stream stream' hwords
  obtain ⟨hrest, hending⟩ := TokenStream.words_eq_iff.mp hwords
  obtain ⟨hoperators, htokens⟩ := takeOperators_eq_of_words operator? hrest
  rw [run_rightAssociative, run_rightAssociative]
  have hfold : Agrees Tree.shape
      (do return (takeOperators operator? stream.rest).1.foldr applyOperator (← inner))
      (do return (takeOperators operator? stream'.rest).1.foldr applyOperator (← inner)) := by
    refine hinner.bind fun node node' hnode => agrees_pure ?_
    rw [shape_foldr_applyOperator, shape_foldr_applyOperator, hnode]
    exact foldr_applyShape_eq hoperators _
  exact hfold _ _ (TokenStream.words_eq_iff.mpr ⟨htokens, hending⟩)

end Operators

theorem agrees_product (bound : Nat) :
    Agrees Tree.shape (product bound expression) (product bound expression) :=
  agrees_leftAssociative (agrees_rightAssociative (agrees_operand hexpression bound) _) _ bound

theorem agrees_logical (bound : Nat) :
    Agrees Tree.shape (logical bound expression) (logical bound expression) := by
  have hsum := agrees_leftAssociative (agrees_product hexpression bound)
    BinaryOperator.ofTermKind? bound
  have hcomparison := agrees_rightAssociative
    (agrees_leftAssociative hsum BinaryOperator.ofComparisonKind? bound) UnaryOperator.ofNotKind?
  exact agrees_leftAssociative hcomparison _ bound

theorem agrees_assignment (bound : Nat) :
    Agrees Tree.shape (assignment bound expression) (assignment bound expression) := by
  refine (agrees_logical hexpression bound).bind fun target target' htarget => ?_
  refine (agrees_accept _).bind ?_
  rintro taken _ rfl
  refine agrees_ite Iff.rfl ?_ (agrees_pure htarget)
  refine agrees_ite ?_ ?_ (fun _ _ _ => rfl)
  · rw [← Tree.isAssignable_shape, htarget, Tree.isAssignable_shape]
  · refine hexpression.bind fun value value' hvalue => agrees_pure ?_
    rw [Tree.shape, Tree.shape, htarget, hvalue]

/-! ## Definitions -/

theorem agrees_functionBody (bound : Nat) :
    Agrees (fun result => (result.1, result.2.shape)) (functionBody bound expression)
      (functionBody bound expression) := by
  refine agrees_byKind fun next => ?_
  split
  · exact (agrees_block hexpression bound).bind fun _ _ hbody =>
      agrees_pure (Prod.ext rfl hbody)
  · refine agrees_advance.bind fun _ _ _ => agrees_skipSeparators.bind fun _ _ _ => ?_
    exact hexpression.bind fun _ _ hbody => agrees_pure (Prod.ext rfl hbody)
  · exact agrees_fail _

omit hexpression in
theorem agrees_parameter : Agrees Parameter.shape parameter parameter := by
  refine (agrees_name _).bind fun typeName typeName' htype => ?_
  refine (agrees_name _).bind fun name name' hname => agrees_pure ?_
  rw [Parameter.shape, Parameter.shape, htype, hname]

omit hexpression in
/-- Two identifiers in a row are taken and seen as their names. -/
theorem seen_names {view : Node → Tree Unit} {stream stream' : TokenStream}
    {next next' : Token → Token → Parser Node} (hwords : stream.words = stream'.words)
    (hfirst : stream.peek.kind = .identifier) (hsecond : (stream.peekAt 1).kind = .identifier)
    (hnext : ∀ {first second first' second' : Token}, first.lexeme = first'.lexeme →
      second.lexeme = second'.lexeme → Agrees view (next first second) (next' first' second')) :
    seen view ((do let first ← advance; let second ← advance; next first second).run stream) =
      seen view
        ((do let first ← advance; let second ← advance; next' first second).run stream') := by
  have hpeek (stream : TokenStream) : stream.tail.peek = stream.peekAt 1 := by
    obtain ⟨_ | ⟨token, _ | ⟨token', tokens⟩⟩, ending⟩ := stream <;> rfl
  have htail := TokenStream.words_tail hwords
  rw [← hpeek] at hsecond
  exact hnext (Token.lexeme_eq_of_word (TokenStream.word_peek hwords) hfirst)
    (Token.lexeme_eq_of_word (TokenStream.word_peek htail) hsecond) _ _
    (TokenStream.words_tail htail)

/-! ## All expressions -/

theorem agrees_expressionWith (bound : Nat) :
    Agrees Tree.shape (expressionWith bound expression) (expressionWith bound expression) := by
  intro stream stream' hwords
  have hkind (distance : Nat) :
      (stream.peekAt distance).kind = (stream'.peekAt distance).kind :=
    congrArg Word.kind (TokenStream.word_peekAt hwords distance)
  have hpeek : stream.peek.kind = stream'.peek.kind :=
    congrArg Word.kind (TokenStream.word_peek hwords)
  rw [expressionWith, run_bind_of_ok (run_get stream), run_bind_of_ok (run_get stream'), ← hpeek,
    ← hkind, ← hkind]
  split
  · next hnames =>
    split
    · refine seen_names hwords hnames.1 hnames.2 fun htype hname => ?_
      refine (agrees_expect _ _).bind fun _ _ _ => ?_
      refine (agrees_itemsBefore agrees_parameter _ bound).bind ?_
      intro parameters parameters' hparameters
      refine (agrees_expect _ _).bind fun _ _ _ => ?_
      refine (agrees_functionBody hexpression bound).bind fun result result' hresult => ?_
      obtain ⟨hgives, hbody⟩ := Prod.mk.inj hresult
      refine agrees_pure ?_
      rw [Tree.shape, Tree.shape, htype, hname, hparameters, hgives, hbody]
    · refine seen_names hwords hnames.1 hnames.2 fun htype hname => ?_
      refine (agrees_expect _ _).bind fun _ _ _ => ?_
      refine hexpression.bind fun value value' hvalue => agrees_pure ?_
      rw [Tree.shape, Tree.shape, htype, hname, hvalue]
    · rfl
  · exact agrees_assignment hexpression bound _ _ hwords

omit hexpression in
theorem agrees_expression (bound : Nat) :
    Agrees Tree.shape (Parser.expression bound) (Parser.expression bound) := by
  induction bound with
  | zero => exact agrees_fail _
  | succ bound ih => exact agrees_expressionWith ih bound

omit hexpression in
theorem agrees_program : Agrees Tree.shape program program := by
  intro stream stream' hwords
  have hlength : stream.rest.length = stream'.rest.length := by
    rw [← List.length_map Token.word, (TokenStream.words_eq_iff.mp hwords).1, List.length_map]
  rw [run_program, run_program, ← hlength]
  exact agrees_statementRow (agrees_expression _) _ _ _ _ hwords

end Parser

/-! ## Programs -/

/-- Rows of tokens that say the same are streams that say the same. -/
theorem TokenStream.words_ofTokens {tokens others : List Token}
    (h : tokens.map Token.word = others.map Token.word) :
    (ofTokens tokens).words = (ofTokens others).words := by
  have hrest (tokens : List Token) : (ofTokens tokens).rest.map Token.word =
      (tokens.map Token.word).takeWhile fun word => !decide (word.kind = .endOfInput) :=
    (List.takeWhile_map (p := fun word : Word => !decide (word.kind = .endOfInput))).symm
  have hmissing (tokens : List Token) :
      (missingEnding tokens).word = ⟨.endOfInput, none, none⟩ := by
    rw [missingEnding]
    split <;> rfl
  have hending (tokens : List Token) : (ofTokens tokens).ending.word =
      ((tokens.map Token.word).find? fun word => decide (word.kind = .endOfInput)).getD
        ⟨.endOfInput, none, none⟩ := by
    rw [ofTokens, ← Option.getD_map Token.word, hmissing, List.find?_map]
    rfl
  exact words_eq_iff.mpr ⟨by rw [hrest, hrest, h], by rw [hending, hending, h]⟩

/-- Rows of tokens that say the same are programs of the same shape, or are refused with the
same problem. -/
theorem Tree.ofTokens_agree {tokens others : List Token}
    (h : tokens.map Token.word = others.map Token.word) :
    (∃ tree tree', Tree.ofTokens tokens = .ok tree ∧ Tree.ofTokens others = .ok tree' ∧
      tree.shape = tree'.shape) ∨
    ∃ error error', Tree.ofTokens tokens = .error error ∧ Tree.ofTokens others = .error error' ∧
      error.problem = error'.problem := by
  have hseen := Parser.agrees_program _ _ (TokenStream.words_ofTokens h)
  rw [ofTokens, ofTokens]
  cases hrun : Parser.program.run (TokenStream.ofTokens tokens) with
  | error error =>
      cases hrun' : Parser.program.run (TokenStream.ofTokens others) with
      | error error' =>
          rw [hrun, hrun'] at hseen
          exact .inr ⟨error, error', rfl, rfl, Except.error.inj hseen⟩
      | ok result =>
          rw [hrun, hrun'] at hseen
          cases hseen
  | ok result =>
      cases hrun' : Parser.program.run (TokenStream.ofTokens others) with
      | error error' =>
          rw [hrun, hrun'] at hseen
          cases hseen
      | ok result' =>
          rw [hrun, hrun'] at hseen
          exact .inl ⟨result.1, result'.1, rfl, rfl, (Prod.mk.inj (Except.ok.inj hseen)).1⟩

end Script
