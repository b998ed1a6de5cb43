/-
# Parsers make progress

The parsers of the grammar are bounded: in the number of rounds of their loops, and in the
depth to which expressions nest. Here two parsers are compared that differ in these bounds
only. They proceed alike from a stream if they run in the same way and if, where they give a
result, they have taken tokens from its front, a number of them at least, and nothing else
has changed. The rule for parsers in a row counts the tokens that were taken: what comes
behind a token need only be known for shorter rows, which is why a bound that is not less
than the number of tokens is never used up.

The rules also hand on what is known of a result. For trees this is that their names are
names of the tokens.
-/

import Script.Proofs.Grammar.Combination
import Script.Proofs.Syntax.Names

namespace Script

variable {good : String → Prop}

/-! ## Streams -/

namespace TokenStream

variable {stream : TokenStream}

/-- What is left of a stream behind a number of tokens. -/
def drop (stream : TokenStream) (count : Nat) : TokenStream :=
  { stream with rest := stream.rest.drop count }

/-- A stream ends with a token that stands for its end, and its identifiers are of some
kind. -/
structure Sound (good : String → Prop) (stream : TokenStream) : Prop where
  ending : stream.ending.kind = .endOfInput
  named : ∀ token ∈ stream.rest, token.kind = .identifier → good token.lexeme

@[simp]
theorem rest_drop (stream : TokenStream) (count : Nat) :
    (stream.drop count).rest = stream.rest.drop count := rfl

theorem drop_zero (stream : TokenStream) : stream.drop 0 = stream := rfl

theorem drop_drop (stream : TokenStream) (first second : Nat) :
    (stream.drop first).drop second = stream.drop (first + second) := by
  rw [drop, drop, drop, List.drop_drop]

theorem tail_eq_drop (stream : TokenStream) : stream.tail = stream.drop 1 := by
  rw [tail, drop, List.drop_one]

theorem peek_drop (stream : TokenStream) (distance : Nat) :
    (stream.drop distance).peek = stream.peekAt distance := by
  rw [peek, drop, peekAt, List.headD_eq_head?_getD, List.head?_drop]

theorem peek_tail (stream : TokenStream) : stream.tail.peek = stream.peekAt 1 := by
  rw [tail_eq_drop, peek_drop]

theorem exists_drop_of_suffix {rest : List Token} (h : rest <:+ stream.rest) :
    ∃ count, count ≤ stream.rest.length ∧ TokenStream.mk rest stream.ending = stream.drop count :=
  ⟨stream.rest.length - rest.length, Nat.sub_le _ _, by
    rw [drop, ← List.suffix_iff_eq_drop.mp h]⟩

namespace Sound

theorem drop (h : stream.Sound good) (count : Nat) : (stream.drop count).Sound good :=
  ⟨h.ending, fun token htoken => h.named token (List.mem_of_mem_drop htoken)⟩

theorem tail (h : stream.Sound good) : stream.tail.Sound good :=
  stream.tail_eq_drop ▸ h.drop 1

theorem pastSeparators (h : stream.Sound good) : stream.pastSeparators.Sound good :=
  ⟨h.ending, fun token htoken =>
    h.named token ((Grammar.pastSeparators_suffix stream.rest).subset htoken)⟩

theorem peek_kind (h : stream.Sound good) :
    stream.peek.kind = Grammar.nextKind stream.rest :=
  TokenStream.peek_kind h.ending

theorem rest_ne_nil (h : stream.Sound good) (hkind : stream.peek.kind ≠ .endOfInput) :
    stream.rest ≠ [] := by
  intro hnil
  rw [h.peek_kind, hnil] at hkind
  exact hkind rfl

theorem tail_length_lt {limit : Nat} (h : stream.Sound good)
    (hkind : stream.peek.kind ≠ .endOfInput) (hlength : stream.rest.length < limit + 1) :
    stream.tail.rest.length < limit := by
  have hpos := List.length_pos_iff.mpr (h.rest_ne_nil hkind)
  rw [TokenStream.tail, List.length_tail]
  omega

/-- An identifier in front is a token of the row. -/
theorem good_peek (h : stream.Sound good) (hkind : stream.peek.kind = .identifier) :
    good stream.peek.lexeme := by
  obtain ⟨rest, ending⟩ := stream
  cases rest with
  | nil =>
      have hending : ending.kind = .endOfInput := h.ending
      rw [peek, List.headD_nil, hending] at hkind
      cases hkind
  | cons token rest => exact h.named token List.mem_cons_self hkind

end Sound

end TokenStream

namespace Parser

open Grammar

variable {α β : Type} {limit limit' least least' : Nat} {stream : TokenStream}

/-- From a stream two parsers run in the same way. Where they give a result, they have taken
tokens from the front, a number of them at least, and something is known of the result. -/
structure ProceedAt (stream : TokenStream) (least : Nat) (parser parser' : Parser α)
    (post : α → Prop) : Prop where
  alike : parser.run stream = parser'.run stream
  ahead : ∀ {a after}, parser.run stream = .ok (a, after) →
    ∃ count, least ≤ count ∧ count ≤ stream.rest.length ∧ after = stream.drop count
  post : ∀ {a after}, parser.run stream = .ok (a, after) → post a

/-- Two parsers proceed alike from rows shorter than a limit. -/
def Proceed (good : String → Prop) (limit least : Nat) (parser parser' : Parser α)
    (post : α → Prop) : Prop :=
  ∀ stream : TokenStream, stream.Sound good → stream.rest.length < limit →
    ProceedAt stream least parser parser' post

variable {parser parser' other other' : Parser α} {next next' : α → Parser β}
  {post : α → Prop} {post' : β → Prop} {weaker : α → Prop}

theorem Proceed.zero : Proceed good 0 least parser parser' post :=
  fun _ _ hlength => absurd hlength (Nat.not_lt_zero _)

theorem ProceedAt.mono (h : ProceedAt stream least parser parser' post) (hleast : least' ≤ least)
    (hpost : ∀ a, post a → weaker a) : ProceedAt stream least' parser parser' weaker where
  alike := h.alike
  ahead hrun := by
    obtain ⟨count, hcount, hrest⟩ := h.ahead hrun
    exact ⟨count, Nat.le_trans hleast hcount, hrest⟩
  post hrun := hpost _ (h.post hrun)

theorem ProceedAt.atLeast (h : ProceedAt stream least parser parser' post)
    (hleast : least' ≤ least) : ProceedAt stream least' parser parser' post :=
  h.mono hleast fun _ => id

theorem ProceedAt.any (h : ProceedAt stream least parser parser' post) :
    ProceedAt stream 0 parser parser' post :=
  h.atLeast (Nat.zero_le least)

theorem Proceed.mono (h : Proceed good limit least parser parser' post) (hlimit : limit' ≤ limit)
    (hleast : least' ≤ least) : Proceed good limit' least' parser parser' post :=
  fun stream hsound hlength => (h stream hsound (Nat.lt_of_lt_of_le hlength hlimit)).atLeast hleast

theorem Proceed.shorter (h : Proceed good limit least parser parser' post)
    (hlimit : limit' ≤ limit) : Proceed good limit' least parser parser' post :=
  h.mono hlimit (Nat.le_refl least)

theorem Proceed.atLeast (h : Proceed good limit least parser parser' post)
    (hleast : least' ≤ least) : Proceed good limit least' parser parser' post :=
  h.mono (Nat.le_refl limit) hleast

theorem Proceed.any (h : Proceed good limit least parser parser' post) :
    Proceed good limit 0 parser parser' post :=
  h.atLeast (Nat.zero_le least)

theorem Proceed.imp (h : Proceed good limit least parser parser' post)
    (hpost : ∀ a, post a → weaker a) : Proceed good limit least parser parser' weaker :=
  fun stream hsound hlength => (h stream hsound hlength).mono (Nat.le_refl least) hpost

/-- Parsers that run as two others do behind some tokens. -/
theorem ProceedAt.of_drop {count : Nat} (hcount : count ≤ stream.rest.length)
    (h : ProceedAt (stream.drop count) least other other' post)
    (hrun : parser.run stream = other.run (stream.drop count))
    (hrun' : parser'.run stream = other'.run (stream.drop count)) :
    ProceedAt stream (count + least) parser parser' post where
  alike := by rw [hrun, hrun', h.alike]
  ahead hok := by
    obtain ⟨further, hleast, hfurther, rfl⟩ := h.ahead (hrun ▸ hok)
    rw [TokenStream.rest_drop, List.length_drop] at hfurther
    exact ⟨count + further, by omega, by omega, stream.drop_drop count further⟩
  post hok := h.post (hrun ▸ hok)

theorem ProceedAt.of_run (h : ProceedAt stream least other other' post)
    (hrun : parser.run stream = other.run stream)
    (hrun' : parser'.run stream = other'.run stream) :
    ProceedAt stream least parser parser' post where
  alike := by rw [hrun, hrun', h.alike]
  ahead hok := h.ahead (hrun ▸ hok)
  post hok := h.post (hrun ▸ hok)

/-! ## Parsers in a row -/

/-- What the second parser does is known of the shorter row that the first one leaves. -/
theorem ProceedAt.behind (h : ProceedAt stream least parser parser' post)
    (hsound : stream.Sound good) (hlength : stream.rest.length < limit)
    (hnext : ∀ a, post a → Proceed good (limit - least) least' (next a) (next' a) post')
    {a : α} {middle : TokenStream} (hrun : parser.run stream = .ok (a, middle)) :
    ∃ count, least ≤ count ∧ count ≤ stream.rest.length ∧ middle = stream.drop count ∧
      ProceedAt middle least' (next a) (next' a) post' := by
  obtain ⟨count, hleast, hcount, rfl⟩ := h.ahead hrun
  refine ⟨count, hleast, hcount, rfl, hnext a (h.post hrun) _ (hsound.drop count) ?_⟩
  rw [TokenStream.rest_drop, List.length_drop]
  omega

theorem Proceed.bind (h : Proceed good limit least parser parser' post)
    (hnext : ∀ a, post a → Proceed good (limit - least) least' (next a) (next' a) post') :
    Proceed good limit (least + least') (parser >>= next) (parser' >>= next') post' := by
  intro stream hsound hlength
  have hfirst := h stream hsound hlength
  constructor
  case alike =>
    cases hrun : parser.run stream with
    | error error =>
        rw [StateT.run_bind, StateT.run_bind, ← hfirst.alike, hrun]
        rfl
    | ok result =>
        obtain ⟨_, _, _, _, hproceed⟩ := hfirst.behind hsound hlength hnext hrun
        rw [run_bind_of_ok hrun, run_bind_of_ok (hfirst.alike ▸ hrun), hproceed.alike]
  case ahead =>
    intro b after hok
    obtain ⟨a, middle, hrun, hok⟩ := run_bind_eq_ok_iff.mp hok
    obtain ⟨count, hleast, hcount, rfl, hproceed⟩ := hfirst.behind hsound hlength hnext hrun
    obtain ⟨count', hleast', hcount', rfl⟩ := hproceed.ahead hok
    rw [TokenStream.rest_drop, List.length_drop] at hcount'
    exact ⟨count + count', by omega, by omega, stream.drop_drop count count'⟩
  case post =>
    intro b after hok
    obtain ⟨a, middle, hrun, hok⟩ := run_bind_eq_ok_iff.mp hok
    obtain ⟨_, _, _, _, hproceed⟩ := hfirst.behind hsound hlength hnext hrun
    exact hproceed.post hok

/-- The first parser may be the one that takes a token. -/
theorem Proceed.andThen (h : Proceed good limit least parser parser' post)
    (hnext : ∀ a, post a → Proceed good (limit - least) 0 (next a) (next' a) post') :
    Proceed good limit least (parser >>= next) (parser' >>= next') post' :=
  h.bind hnext

/-- The second parser may be the one that takes a token. -/
theorem Proceed.before (h : Proceed good limit 0 parser parser' post)
    (hnext : ∀ a, post a → Proceed good limit least (next a) (next' a) post') :
    Proceed good limit least (parser >>= next) (parser' >>= next') post' :=
  (h.bind hnext).atLeast (Nat.le_add_left least 0)

theorem ProceedAt.pure {a : α} (h : post a) : ProceedAt stream 0 (pure a) (pure a) post where
  alike := rfl
  ahead hok := by
    cases hok
    exact ⟨0, Nat.le_refl 0, Nat.zero_le _, stream.drop_zero.symm⟩
  post hok := by
    cases hok
    exact h

theorem Proceed.pure {a : α} (h : post a) : Proceed good limit 0 (pure a) (pure a) post :=
  fun _ _ _ => .pure h

/-- The result of a parser, changed. -/
theorem Proceed.map {f : α → β} (h : Proceed good limit least parser parser' post)
    (hpost : ∀ a, post a → post' (f a)) :
    Proceed good limit least (parser >>= fun a => Pure.pure (f a))
      (parser' >>= fun a => Pure.pure (f a)) post' :=
  h.andThen fun a ha => .pure (hpost a ha)

theorem ProceedAt.throw (error : SyntaxError) :
    ProceedAt stream least (throw error : Parser α) (throw error) post where
  alike := rfl
  ahead hok := by cases hok
  post hok := by cases hok

theorem ProceedAt.fail (problem : SyntaxProblem) :
    ProceedAt stream least (fail problem : Parser α) (fail problem) post where
  alike := rfl
  ahead hok := by cases hok
  post hok := by cases hok

/-! ## Looking at tokens -/

section Look

variable {next next' : TokenStream → Parser α}

theorem ProceedAt.get (h : ProceedAt stream least (next stream) (next' stream) post) :
    ProceedAt stream least (get >>= next) (get >>= next') post :=
  ⟨h.alike, h.ahead, h.post⟩

end Look

theorem ProceedAt.peek {next next' : Token → Parser α}
    (h : ProceedAt stream least (next stream.peek) (next' stream.peek) post) :
    ProceedAt stream least (peek >>= next) (Parser.peek >>= next') post :=
  ⟨h.alike, h.ahead, h.post⟩

theorem ProceedAt.byKind {next next' : Token.Kind → Parser α}
    (h : ProceedAt stream least (next stream.peek.kind) (next' stream.peek.kind) post) :
    ProceedAt stream least (peekKind >>= next) (peekKind >>= next') post :=
  ⟨h.alike, h.ahead, h.post⟩

theorem ProceedAt.byKindPastSeparators {next next' : Token.Kind → Parser α}
    (h : ProceedAt stream least (next stream.pastSeparators.peek.kind)
      (next' stream.pastSeparators.peek.kind) post) :
    ProceedAt stream least (kindPastSeparators >>= next) (kindPastSeparators >>= next') post :=
  ⟨h.alike, h.ahead, h.post⟩

/-- A parser that goes by the kind of the next token, whatever that kind is. -/
theorem Proceed.byKind {next next' : Token.Kind → Parser α}
    (h : ∀ kind, Proceed good limit least (next kind) (next' kind) post) :
    Proceed good limit least (peekKind >>= next) (peekKind >>= next') post :=
  fun stream hsound hlength => .byKind (h _ stream hsound hlength)

theorem Proceed.ite {condition : Prop} [Decidable condition]
    (h : condition → Proceed good limit least parser parser' post)
    (h' : ¬condition → Proceed good limit least other other' post) :
    Proceed good limit least (if condition then parser else other)
      (if condition then parser' else other') post := by
  split
  · exact h ‹_›
  · exact h' ‹_›

/-! ## Taking tokens -/

/-- The token in front is taken if there is one. -/
theorem ProceedAt.advance {next next' : Token → Parser α}
    (h : ProceedAt stream.tail least (next stream.peek) (next' stream.peek) post) :
    ProceedAt stream least (advance >>= next) (Parser.advance >>= next') post := by
  obtain ⟨count, hcount, hdrop⟩ :=
    TokenStream.exists_drop_of_suffix (List.tail_suffix stream.rest)
  have htail : stream.tail = stream.drop count := hdrop
  have hrun {following : Token → Parser α} :
      (Parser.advance >>= following).run stream =
        (following stream.peek).run (stream.drop count) := by
    rw [← htail]
    rfl
  exact (ProceedAt.of_drop hcount (htail ▸ h) hrun hrun).atLeast (Nat.le_add_left least count)

/-- What follows the token in front need only be known at the row behind it. -/
theorem ProceedAt.advance_tail {next next' : Token → Parser α} (hsound : stream.Sound good)
    (htail : stream.tail.rest.length < limit)
    (h : Proceed good limit least (next stream.peek) (next' stream.peek) post) :
    ProceedAt stream least (Parser.advance >>= next) (Parser.advance >>= next') post :=
  .advance (h stream.tail hsound.tail htail)

/-- A token that does not stand for the end is one that is taken. -/
theorem ProceedAt.advance_shorter {next next' : Token → Parser α} (hsound : stream.Sound good)
    (hlength : stream.rest.length < limit) (hkind : stream.peek.kind ≠ .endOfInput)
    (h : Proceed good (limit - 1) 0 (next stream.peek) (next' stream.peek) post) :
    ProceedAt stream 1 (Parser.advance >>= next) (Parser.advance >>= next') post := by
  have hpos := List.length_pos_iff.mpr (hsound.rest_ne_nil hkind)
  have hrun {following : Token → Parser α} :
      (Parser.advance >>= following).run stream = (following stream.peek).run (stream.drop 1) := by
    rw [← TokenStream.tail_eq_drop]
    rfl
  refine .of_drop hpos (h _ (hsound.drop 1) ?_) hrun hrun
  rw [TokenStream.rest_drop, List.length_drop]
  omega

/-- At the end nothing is taken. -/
theorem proceed_advance : Proceed good limit 0 advance advance fun _ => True := by
  intro stream _ _
  have hrun : Parser.advance.run stream = (Parser.advance >>= pure).run stream := rfl
  exact .of_run (.advance (.pure trivial)) hrun hrun

theorem proceed_expect {kind : Token.Kind} (problem : SyntaxProblem) (hkind : kind ≠ .endOfInput) :
    Proceed good limit 1 (expect kind problem) (expect kind problem) fun token =>
      kind = .identifier → good token.lexeme := by
  intro stream hsound hlength
  refine .byKind ?_
  split
  · next hnext =>
    have hrun : Parser.advance.run stream = (Parser.advance >>= pure).run stream := rfl
    have hfront : stream.peek.kind ≠ .endOfInput := hnext ▸ hkind
    refine .of_run (.advance_shorter hsound hlength hfront (.pure fun hname => ?_)) hrun hrun
    exact hsound.good_peek (hnext.trans hname)
  · exact .fail problem

theorem proceed_accept (kind : Token.Kind) :
    Proceed good limit 0 (accept kind) (accept kind) fun _ => True :=
  .byKind fun _ => .ite (fun _ => proceed_advance.andThen fun _ _ => .pure trivial)
    fun _ => .pure trivial

/-- Where a token is taken if it is of some kind, what follows it need only be known at shorter
rows. -/
theorem Proceed.accept {kind : Token.Kind} {next next' : Bool → Parser β}
    (hkind : kind ≠ .endOfInput)
    (htrue : Proceed good (limit - 1) 0 (next true) (next' true) post')
    (hfalse : Proceed good limit 0 (next false) (next' false) post') :
    Proceed good limit 0 (accept kind >>= next) (Parser.accept kind >>= next') post' := by
  intro stream hsound hlength
  refine .of_run (.byKind ?_) (run_accept_bind kind next stream)
    (run_accept_bind kind next' stream)
  split
  · next hnext =>
    have hfront : stream.peek.kind ≠ .endOfInput := hnext ▸ hkind
    exact (ProceedAt.advance_shorter hsound hlength hfront htrue).any
  · exact hfalse stream hsound hlength

/-- Behind separators in front. -/
theorem ProceedAt.skipSeparators {next next' : Unit → Parser α}
    (h : ProceedAt stream.pastSeparators least (next ()) (next' ()) post) :
    ProceedAt stream least (skipSeparators >>= next) (Parser.skipSeparators >>= next') post := by
  obtain ⟨count, hcount, hdrop⟩ :=
    TokenStream.exists_drop_of_suffix (pastSeparators_suffix stream.rest)
  have hpast : stream.pastSeparators = stream.drop count := hdrop
  have hrun {following : Unit → Parser α} :
      (Parser.skipSeparators >>= following).run stream =
        (following ()).run (stream.drop count) := by
    rw [← hpast]
    rfl
  exact (ProceedAt.of_drop hcount (hpast ▸ h) hrun hrun).atLeast (Nat.le_add_left least count)

/-- Behind separators in front and a token behind them that does not stand for the end. -/
theorem ProceedAt.skipSeparators_advance {next next' : Token → Parser α}
    (hsound : stream.Sound good) (hlength : stream.rest.length < limit)
    (hkind : stream.pastSeparators.peek.kind ≠ .endOfInput)
    (h : Proceed good (limit - 1) 0 (next stream.pastSeparators.peek)
      (next' stream.pastSeparators.peek) post) :
    ProceedAt stream 1 (Parser.skipSeparators >>= fun _ => Parser.advance >>= next)
      (Parser.skipSeparators >>= fun _ => Parser.advance >>= next') post := by
  have hle : stream.pastSeparators.rest.length ≤ stream.rest.length :=
    (pastSeparators_suffix stream.rest).length_le
  exact .skipSeparators (.advance_shorter hsound.pastSeparators (by omega) hkind h)

theorem proceed_skipSeparators :
    Proceed good limit 0 skipSeparators skipSeparators fun _ => True := by
  intro stream _ _
  have hrun : Parser.skipSeparators.run stream = (Parser.skipSeparators >>= pure).run stream := rfl
  exact .of_run (.skipSeparators (.pure trivial)) hrun hrun

end Parser

end Script
