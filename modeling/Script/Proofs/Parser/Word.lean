/-
# Parsers that agree

What a token says is its kind, its literal and, for an identifier, its name; where it
stands and how it is spelled is not part of that. Two parsers agree if on streams that say
the same the same is seen of their results: the same view of what was read, with tokens
left that say the same, or the same problem.

Agreement is a relation between two parsers and not a property of one, since the second
half of a parser is another one for each result of the first half. Only the primitives
and the rule for parsers in a row look at streams.
-/

import Script.Proofs.Syntax.Shape
import Script.Syntax.Parser.Expression

namespace Script

deriving instance DecidableEq for Number, Token.Literal

/-- What a token says, apart from its place and its spelling. -/
structure Word where
  kind : Token.Kind
  literal : Option Token.Literal
  name : Option String
  deriving DecidableEq

/-- What a token says. -/
def Token.word (token : Token) : Word where
  kind := token.kind
  literal := token.literal
  name := if token.kind = .identifier then some token.lexeme else none

theorem Token.lexeme_eq_of_word {token other : Token} (h : token.word = other.word)
    (hkind : token.kind = .identifier) : token.lexeme = other.lexeme := by
  have hkind' : other.kind = .identifier := (congrArg Word.kind h).symm.trans hkind
  have hname : token.word.name = other.word.name := congrArg Word.name h
  simpa [word, hkind, hkind'] using hname

/-- What the tokens of a stream say, and what its end says. -/
def TokenStream.words (stream : TokenStream) : List Word × Word :=
  (stream.rest.map Token.word, stream.ending.word)

namespace TokenStream

variable {stream other : TokenStream}

theorem words_eq_iff :
    stream.words = other.words ↔
      stream.rest.map Token.word = other.rest.map Token.word ∧
        stream.ending.word = other.ending.word := by
  rw [words, words, Prod.mk.injEq]

theorem word_peek (h : stream.words = other.words) : stream.peek.word = other.peek.word := by
  obtain ⟨hrest, hending⟩ := words_eq_iff.mp h
  rw [peek, peek, ← List.headD_map (f := Token.word), ← List.headD_map (f := Token.word), hrest,
    hending]

theorem word_peekAt (h : stream.words = other.words) (distance : Nat) :
    (stream.peekAt distance).word = (other.peekAt distance).word := by
  obtain ⟨hrest, hending⟩ := words_eq_iff.mp h
  rw [peekAt, peekAt, ← Option.getD_map Token.word, ← Option.getD_map Token.word,
    ← List.getElem?_map, ← List.getElem?_map, hrest, hending]

theorem words_tail (h : stream.words = other.words) : stream.tail.words = other.tail.words := by
  obtain ⟨hrest, hending⟩ := words_eq_iff.mp h
  refine words_eq_iff.mpr ⟨?_, hending⟩
  rw [tail, tail, List.map_tail, List.map_tail, hrest]

theorem words_pastSeparators (h : stream.words = other.words) :
    stream.pastSeparators.words = other.pastSeparators.words := by
  have hpast (tokens : List Token) :
      (tokens.dropWhile fun token => decide (token.kind = .separator)).map Token.word =
        (tokens.map Token.word).dropWhile fun word => decide (word.kind = .separator) :=
    (List.dropWhile_map (p := fun word : Word => decide (word.kind = .separator))).symm
  obtain ⟨hrest, hending⟩ := words_eq_iff.mp h
  refine words_eq_iff.mpr ⟨?_, hending⟩
  rw [pastSeparators, pastSeparators, hpast, hpast, hrest]

end TokenStream

namespace Parser

variable {α β γ δ ε : Type}

/-! ## Agreement -/

/-- What is seen of a result: a view of what was read and what the tokens left say, or the
problem. -/
def seen (view : α → γ) :
    Except SyntaxError (α × TokenStream) → Except SyntaxProblem (γ × List Word × Word)
  | .ok (a, after) => .ok (view a, after.words)
  | .error error => .error error.problem

/-- On streams that say the same, the same is seen of the results of two parsers. -/
def Agrees (view : α → γ) (parser other : Parser α) : Prop :=
  ∀ stream stream' : TokenStream, stream.words = stream'.words →
    seen view (parser.run stream) = seen view (other.run stream')

theorem Agrees.bind {view : α → γ} {view' : β → δ} {parser other : Parser α}
    {next next' : α → Parser β} (h : Agrees view parser other)
    (hnext : ∀ a b, view a = view b → Agrees view' (next a) (next' b)) :
    Agrees view' (parser >>= next) (other >>= next') := by
  intro stream stream' hwords
  have hfirst := h stream stream' hwords
  rw [StateT.run_bind, StateT.run_bind]
  cases hrun : parser.run stream with
  | error error =>
      cases hrun' : other.run stream' with
      | error error' =>
          rw [hrun, hrun'] at hfirst
          exact congrArg Except.error (Except.error.inj hfirst)
      | ok result =>
          rw [hrun, hrun'] at hfirst
          cases hfirst
  | ok result =>
      cases hrun' : other.run stream' with
      | error error' =>
          rw [hrun, hrun'] at hfirst
          cases hfirst
      | ok result' =>
          rw [hrun, hrun'] at hfirst
          obtain ⟨hview, hafter⟩ := Prod.mk.inj (Except.ok.inj hfirst)
          exact hnext _ _ hview _ _ hafter

theorem agrees_pure {view : α → γ} {a b : α} (h : view a = view b) :
    Agrees view (pure a) (pure b) := by
  intro stream stream' hwords
  exact congrArg Except.ok (Prod.ext h hwords)

theorem agrees_failAt {view : α → γ} (token token' : Token) (problem : SyntaxProblem) :
    Agrees view (failAt token problem) (failAt token' problem) :=
  fun _ _ _ => rfl

theorem agrees_peek : Agrees Token.word peek peek :=
  fun _ _ hwords => congrArg Except.ok (Prod.ext (TokenStream.word_peek hwords) hwords)

theorem agrees_peekKind : Agrees id peekKind peekKind :=
  fun _ _ hwords => congrArg Except.ok
    (Prod.ext (congrArg Word.kind (TokenStream.word_peek hwords)) hwords)

theorem agrees_advance : Agrees Token.word advance advance :=
  fun _ _ hwords => congrArg Except.ok
    (Prod.ext (TokenStream.word_peek hwords) (TokenStream.words_tail hwords))

theorem agrees_skipSeparators : Agrees id skipSeparators skipSeparators :=
  fun _ _ hwords => congrArg Except.ok (Prod.ext rfl (TokenStream.words_pastSeparators hwords))

theorem agrees_kindPastSeparators : Agrees id kindPastSeparators kindPastSeparators := by
  intro stream stream' hwords
  have hpast := TokenStream.words_pastSeparators hwords
  exact congrArg Except.ok (Prod.ext (congrArg Word.kind (TokenStream.word_peek hpast)) hwords)

theorem agrees_ite {condition condition' : Prop} [Decidable condition] [Decidable condition']
    (hiff : condition ↔ condition') {view : α → γ} {parser other parser' other' : Parser α}
    (h : Agrees view parser other) (h' : Agrees view parser' other') :
    Agrees view (if condition then parser else parser') (if condition' then other else other') := by
  by_cases hcondition : condition
  · rw [if_pos hcondition, if_pos (hiff.mp hcondition)]
    exact h
  · rw [if_neg hcondition, if_neg (mt hiff.mpr hcondition)]
    exact h'

/-- Parsers that go by the kind of the next token. -/
theorem agrees_byKind {view : α → γ} {next next' : Token.Kind → Parser α}
    (h : ∀ kind, Agrees view (next kind) (next' kind)) :
    Agrees view (peekKind >>= next) (peekKind >>= next') := by
  refine agrees_peekKind.bind ?_
  rintro kind _ rfl
  exact h kind

theorem agrees_fail {view : α → γ} (problem : SyntaxProblem) :
    Agrees view (fail problem) (fail problem) :=
  agrees_peek.bind fun token token' _ => agrees_failAt token token' problem

theorem agrees_expect (kind : Token.Kind) (problem : SyntaxProblem) :
    Agrees Token.word (expect kind problem) (expect kind problem) := by
  refine agrees_byKind fun next => ?_
  exact agrees_ite Iff.rfl agrees_advance (agrees_fail problem)

theorem agrees_accept (kind : Token.Kind) : Agrees id (accept kind) (accept kind) := by
  refine agrees_byKind fun next => ?_
  refine agrees_ite Iff.rfl ?_ (agrees_pure rfl)
  exact agrees_advance.bind fun _ _ _ => agrees_pure rfl

/-! ## Rows of items -/

section Items

variable {view : α → γ} {item : Parser α}

theorem agrees_commaSeparated (h : Agrees view item item) (bound : Nat) :
    Agrees (List.map view) (commaSeparated item bound) (commaSeparated item bound) := by
  induction bound with
  | zero => exact agrees_fail _
  | succ bound ih =>
      refine h.bind fun first first' hfirst => (agrees_accept .comma).bind ?_
      rintro taken _ rfl
      refine agrees_ite Iff.rfl ?_ (agrees_pure ?_)
      · refine ih.bind fun others others' hothers => agrees_pure ?_
        rw [List.map_cons, List.map_cons, hfirst, hothers]
      · rw [List.map_singleton, List.map_singleton, hfirst]

theorem agrees_itemsBefore (h : Agrees view item item) (close : Token.Kind) (bound : Nat) :
    Agrees (List.map view) (itemsBefore close item bound) (itemsBefore close item bound) := by
  refine agrees_byKind fun next => ?_
  exact agrees_ite Iff.rfl (agrees_pure rfl) (agrees_commaSeparated h bound)

end Items

end Parser

end Script
