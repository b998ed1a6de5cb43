/-
# Parsers that recognize readings

A parser recognizes a reading if what it reads from a row is what the reading
relates to that row, and if it reads everything that the reading relates to the row
and that ends where the parser would stop. Both halves are stated for rows up to a
given length, since the parsers of nested constructs are bounded by the number of
tokens. This module has the runs of the primitive parsers and of the parsers for
things with commas between them.
-/

import Script.Proofs.Grammar.First
import Script.Syntax.Parser.Expression

namespace Script

/-! ## Runs of parsers -/

namespace Parser

variable {α β : Type}

theorem run_bind_eq_ok_iff {first : Parser α} {next : α → Parser β} {b : β}
    {stream after : TokenStream} :
    (first >>= next).run stream = .ok (b, after) ↔
      ∃ a middle, first.run stream = .ok (a, middle) ∧ (next a).run middle = .ok (b, after) := by
  rw [StateT.run_bind]
  cases hfirst : first.run stream with
  | error error => simp [bind, Except.bind]
  | ok result =>
      obtain ⟨a, middle⟩ := result
      constructor
      · intro hnext
        exact ⟨a, middle, rfl, hnext⟩
      · rintro ⟨a', middle', heq, hnext⟩
        cases heq
        exact hnext

theorem run_bind_of_ok {first : Parser α} {next : α → Parser β} {a : α}
    {stream middle : TokenStream} (hfirst : first.run stream = .ok (a, middle)) :
    (first >>= next).run stream = (next a).run middle := by
  rw [StateT.run_bind, hfirst]
  rfl

theorem run_pure (a : α) (stream : TokenStream) :
    (pure a : Parser α).run stream = .ok (a, stream) := rfl

theorem run_get (stream : TokenStream) :
    (get : Parser TokenStream).run stream = .ok (stream, stream) := rfl

theorem run_program (stream : TokenStream) :
    program.run stream =
      (statementRow .endOfInput (stream.rest.length + 1 : Nat)
        (expression (stream.rest.length + 1 : Nat))).run stream := by
  rw [program, run_bind_of_ok (run_get stream)]

theorem run_peekKind (stream : TokenStream) :
    peekKind.run stream = .ok (stream.peek.kind, stream) := rfl

theorem run_failAt_ne_ok {token : Token} {problem : SyntaxProblem} {a : α}
    {stream after : TokenStream} : (failAt token problem).run stream ≠ .ok (a, after) := by
  intro h
  cases h

theorem run_fail_ne_ok {problem : SyntaxProblem} {a : α} {stream after : TokenStream} :
    (fail problem).run stream ≠ .ok (a, after) := by
  intro h
  cases h

theorem run_skipSeparators (tokens : List Token) (ending : Token) :
    skipSeparators.run ⟨tokens, ending⟩ =
      .ok ((), ⟨Grammar.pastSeparators tokens, ending⟩) := rfl

/-- A token of a kind is taken if it is next. -/
theorem run_accept_bind (kind : Token.Kind) (next : Bool → Parser β) (stream : TokenStream) :
    (accept kind >>= next).run stream =
      (peekKind >>= fun found =>
        if found = kind then advance >>= fun _ => next true else next false).run stream := by
  rw [accept, StateT.run_bind, run_bind_of_ok (run_peekKind stream),
    run_bind_of_ok (run_peekKind stream)]
  split
  · rfl
  · rfl

end Parser

theorem TokenStream.peek_kind {tokens : List Token} {ending : Token}
    (hending : ending.kind = .endOfInput) :
    (TokenStream.mk tokens ending).peek.kind = Grammar.nextKind tokens := by
  cases tokens with
  | nil => exact hending
  | cons token tokens => rfl

namespace Grammar

open Script.Parser

/-- What is left of a row when at least one token was taken from its front. -/
def Behind (rest tokens : List Token) : Prop :=
  rest <:+ tokens ∧ rest.length < tokens.length

theorem Behind.of_cons (token : Token) (tokens : List Token) :
    Behind tokens (token :: tokens) :=
  ⟨List.suffix_cons token tokens, by simp⟩

theorem Behind.trans_suffix {first middle last : List Token} (h : Behind middle first)
    (hlast : last <:+ middle) : Behind last first :=
  ⟨hlast.trans h.1, Nat.lt_of_le_of_lt hlast.length_le h.2⟩

theorem Behind.of_suffix {first middle last : List Token} (hmiddle : middle <:+ first)
    (h : Behind last middle) : Behind last first :=
  ⟨h.1.trans hmiddle, Nat.lt_of_lt_of_le h.2 hmiddle.length_le⟩

theorem Behind.trans {first middle last : List Token} (h : Behind middle first)
    (hlast : Behind last middle) : Behind last first :=
  h.trans_suffix hlast.1

theorem pastSeparators_suffix (tokens : List Token) : pastSeparators tokens <:+ tokens :=
  List.dropWhile_suffix _

variable {α β : Type} {bound : Nat} {ending : Token} {tokens : List Token}

/-! ## Runs of the primitive parsers -/

theorem run_peekKind_eq (hending : ending.kind = .endOfInput) :
    peekKind.run ⟨tokens, ending⟩ = .ok (nextKind tokens, ⟨tokens, ending⟩) := by
  rw [run_peekKind, TokenStream.peek_kind hending]

theorem run_kindPastSeparators (hending : ending.kind = .endOfInput) :
    kindPastSeparators.run ⟨tokens, ending⟩ =
      .ok (nextKind (pastSeparators tokens), ⟨tokens, ending⟩) := by
  rw [← TokenStream.peek_kind hending]
  rfl

theorem run_peek_cons (token : Token) (tokens : List Token) (ending : Token) :
    peek.run ⟨token :: tokens, ending⟩ = .ok (token, ⟨token :: tokens, ending⟩) := rfl

theorem run_advance_cons (token : Token) (tokens : List Token) (ending : Token) :
    advance.run ⟨token :: tokens, ending⟩ = .ok (token, ⟨tokens, ending⟩) := rfl

/-- The next token is taken if it has the expected kind, which is never that of the
end. -/
theorem run_expect_eq_ok_iff {kind : Token.Kind} {problem : SyntaxProblem} {token : Token}
    {after : TokenStream} (hending : ending.kind = .endOfInput) (hkind : kind ≠ .endOfInput) :
    (expect kind problem).run ⟨tokens, ending⟩ = .ok (token, after) ↔
      ∃ rest, tokens = token :: rest ∧ token.kind = kind ∧ after = ⟨rest, ending⟩ := by
  rw [expect, run_bind_of_ok (run_peekKind_eq hending)]
  split
  · next hnext =>
    cases tokens with
    | nil => exact absurd hnext.symm hkind
    | cons first tokens =>
        rw [run_advance_cons]
        constructor
        · intro h
          cases h
          exact ⟨tokens, rfl, hnext, rfl⟩
        · rintro ⟨rest, heq, _, rfl⟩
          cases heq
          rfl
  · next hnext =>
    constructor
    · intro h
      exact absurd h run_fail_ne_ok
    · rintro ⟨rest, rfl, htoken, _⟩
      exact absurd htoken hnext

theorem run_expect_cons {kind : Token.Kind} {problem : SyntaxProblem} {token : Token}
    (hkind : token.kind = kind) :
    (expect kind problem).run ⟨token :: tokens, ending⟩ = .ok (token, ⟨tokens, ending⟩) := by
  have hpeek : (TokenStream.mk (token :: tokens) ending).peek.kind = kind := hkind
  rw [expect, run_bind_of_ok (run_peekKind _), if_pos hpeek]
  rfl

/-- A token of a kind is taken if it is next, and otherwise nothing is. -/
theorem run_accept_eq_ok_iff {kind : Token.Kind} {taken : Bool} {after : TokenStream}
    (hending : ending.kind = .endOfInput) (hkind : kind ≠ .endOfInput) :
    (accept kind).run ⟨tokens, ending⟩ = .ok (taken, after) ↔
      (∃ token rest, tokens = token :: rest ∧ token.kind = kind ∧ taken = true ∧
        after = ⟨rest, ending⟩) ∨
      (nextKind tokens ≠ kind ∧ taken = false ∧ after = ⟨tokens, ending⟩) := by
  rw [accept, run_bind_of_ok (run_peekKind_eq hending)]
  split
  · next hnext =>
    cases tokens with
    | nil => exact absurd hnext.symm hkind
    | cons token tokens =>
        rw [run_bind_of_ok (run_advance_cons _ _ _), run_pure]
        constructor
        · intro h
          cases h
          exact .inl ⟨token, tokens, rfl, hnext, rfl, rfl⟩
        · rintro (⟨first, rest, heq, _, rfl, rfl⟩ | ⟨hne, _⟩)
          · cases heq
            rfl
          · exact absurd hnext hne
  · next hnext =>
    rw [run_pure]
    constructor
    · intro h
      cases h
      exact .inr ⟨hnext, rfl, rfl⟩
    · rintro (⟨first, rest, rfl, hfirst, _⟩ | ⟨_, rfl, rfl⟩)
      · exact absurd hfirst hnext
      · rfl

theorem run_itemsBefore_of_eq {close : Token.Kind} {item : Parser α}
    (hending : ending.kind = .endOfInput) (hnext : nextKind tokens = close) :
    (itemsBefore close item bound).run ⟨tokens, ending⟩ = .ok ([], ⟨tokens, ending⟩) := by
  rw [itemsBefore, run_bind_of_ok (run_peekKind_eq hending), if_pos hnext]
  rfl

theorem run_itemsBefore_of_ne {close : Token.Kind} {item : Parser α}
    (hending : ending.kind = .endOfInput) (hnext : nextKind tokens ≠ close) :
    (itemsBefore close item bound).run ⟨tokens, ending⟩ =
      (commaSeparated item bound).run ⟨tokens, ending⟩ := by
  rw [itemsBefore, run_bind_of_ok (run_peekKind_eq hending), if_neg hnext]

/-! ## Recognition -/

/-- A parser reads from rows shorter than a bound what a reading relates to them, up to a
view of what is read, and everything behind which it may stop. At least one token is
taken. -/
structure Recognizes (bound : Nat) (parser : Parser α) (view : α → β) (read : Reading β)
    (stops : List Token → Prop) : Prop where
  sound : ∀ {ending : Token} {tokens : List Token} {a : α} {after : TokenStream},
    ending.kind = .endOfInput → tokens.length < bound →
    parser.run ⟨tokens, ending⟩ = .ok (a, after) →
    ∃ rest, after = ⟨rest, ending⟩ ∧ Behind rest tokens ∧ read tokens rest (view a)
  complete : ∀ {ending : Token} {tokens rest : List Token} {x : β},
    ending.kind = .endOfInput → tokens.length < bound → read tokens rest x → stops rest →
    ∃ a, parser.run ⟨tokens, ending⟩ = .ok (a, ⟨rest, ending⟩) ∧ view a = x

/-- Whatever is recognized takes a token. -/
theorem Recognizes.behind {parser : Parser α} {view : α → β} {read : Reading β}
    {stops : List Token → Prop} (h : Recognizes bound parser view read stops)
    {rest : List Token} {x : β} (hlength : tokens.length < bound)
    (hread : read tokens rest x) (hstops : stops rest) : Behind rest tokens := by
  have hending : (Token.atEnd default).kind = .endOfInput := rfl
  obtain ⟨a, hrun, _⟩ := h.complete hending hlength hread hstops
  obtain ⟨rest', hafter, hbehind, _⟩ := h.sound hending hlength hrun
  cases hafter
  exact hbehind

/-- A parser recognizes a reading that depends on the place. What it reads fits every
place; where it may stop is restricted by the given condition only for what is
enclosed. -/
structure RecognizesPlaced (bound : Nat) (parser : Parser Node)
    (read : Place → Reading (Tree Unit)) (ends : List Token → Prop) : Prop where
  sound : ∀ {ending : Token} {tokens : List Token} {node : Node} {after : TokenStream},
    ending.kind = .endOfInput → tokens.length < bound →
    parser.run ⟨tokens, ending⟩ = .ok (node, after) →
    ∃ rest, after = ⟨rest, ending⟩ ∧ Behind rest tokens ∧
      ∀ place, read place tokens rest node.shape
  complete : ∀ {ending : Token} {place : Place} {tokens rest : List Token} {tree : Tree Unit},
    ending.kind = .endOfInput → tokens.length < bound → read place tokens rest tree →
    Clear rest → (place = .enclosed → ends rest) →
    ∃ node, parser.run ⟨tokens, ending⟩ = .ok (node, ⟨rest, ending⟩) ∧ node.shape = tree

/-- What is recognized in every place is recognized where it is enclosed. -/
theorem RecognizesPlaced.enclosed {parser : Parser Node} {read : Place → Reading (Tree Unit)}
    {ends : List Token → Prop} (h : RecognizesPlaced bound parser read ends) :
    Recognizes bound parser Tree.shape (read .enclosed) fun rest => Clear rest ∧ ends rest where
  sound hending hbound hrun := by
    obtain ⟨rest, hafter, hbehind, hread⟩ := h.sound hending hbound hrun
    exact ⟨rest, hafter, hbehind, hread .enclosed⟩
  complete hending hbound hread hstops :=
    h.complete hending hbound hread hstops.1 fun _ => hstops.2

/-! ## Commas -/

section Commas

variable {item : Parser α} {view : α → β} {read : Reading β} {stops : List Token → Prop}

theorem sound_commaSeparated (hitem : Recognizes bound item view read stops)
    (hending : ending.kind = .endOfInput) {count : Nat} (hcount : count ≤ bound) :
    ∀ {tokens : List Token} {xs : List α} {after : TokenStream}, tokens.length < count →
      (commaSeparated item count).run ⟨tokens, ending⟩ = .ok (xs, after) →
      ∃ rest, after = ⟨rest, ending⟩ ∧ Behind rest tokens ∧
        CommaSeparated read tokens rest (xs.map view) := by
  induction count with
  | zero =>
      intro tokens xs after hlength
      exact absurd hlength (Nat.not_lt_zero _)
  | succ count ih =>
      intro tokens xs after hlength hrun
      obtain ⟨x, _, hx, hrun⟩ := run_bind_eq_ok_iff.mp hrun
      obtain ⟨middle, rfl, hbehind, hread⟩ :=
        hitem.sound hending (Nat.lt_of_lt_of_le hlength hcount) hx
      obtain ⟨taken, _, haccept, hrun⟩ := run_bind_eq_ok_iff.mp hrun
      rw [run_accept_eq_ok_iff hending (by decide)] at haccept
      obtain ⟨comma, rest, rfl, hcomma, rfl, rfl⟩ | ⟨_, rfl, rfl⟩ := haccept
      · obtain ⟨ys, _, hys, hpure⟩ := run_bind_eq_ok_iff.mp hrun
        have hshort := hbehind.2
        rw [List.length_cons] at hshort
        obtain ⟨last, rfl, hlast, hreads⟩ := ih (by omega) (by omega) hys
        cases hpure
        have hrest := (Behind.of_cons comma rest).trans hlast
        exact ⟨last, rfl, hbehind.trans hrest, .more hread hcomma hreads⟩
      · cases hrun
        exact ⟨middle, rfl, hbehind, .one hread⟩

theorem complete_commaSeparated (hitem : Recognizes bound item view read stops)
    (hstops : ∀ comma rest, comma.kind = .comma → stops (comma :: rest))
    (hending : ending.kind = .endOfInput) {count : Nat} (hcount : count ≤ bound) :
    ∀ {tokens rest : List Token} {xs : List β}, tokens.length < count →
      CommaSeparated read tokens rest xs → stops rest → nextKind rest ≠ .comma →
      ∃ ys, (commaSeparated item count).run ⟨tokens, ending⟩ = .ok (ys, ⟨rest, ending⟩) ∧
        ys.map view = xs := by
  induction count with
  | zero =>
      intro tokens rest xs hlength
      exact absurd hlength (Nat.not_lt_zero _)
  | succ count ih =>
      intro tokens rest xs hlength hread hrest hnext
      cases hread with
      | one hx =>
          obtain ⟨y, hy, rfl⟩ := hitem.complete hending (Nat.lt_of_lt_of_le hlength hcount) hx hrest
          have haccept : (accept .comma).run ⟨rest, ending⟩ = .ok (false, ⟨rest, ending⟩) :=
            (run_accept_eq_ok_iff hending (by decide)).mpr (.inr ⟨hnext, rfl, rfl⟩)
          refine ⟨[y], ?_, rfl⟩
          rw [Rounds.ofCount_succ, commaSeparated, run_bind_of_ok hy, run_bind_of_ok haccept]
          rfl
      | @more _ middle _ comma _ _ hx hcomma hreads =>
          obtain ⟨y, hy, rfl⟩ :=
            hitem.complete hending (Nat.lt_of_lt_of_le hlength hcount) hx (hstops _ _ hcomma)
          have hshort := (hitem.behind (Nat.lt_of_lt_of_le hlength hcount) hx (hstops _ _ hcomma)).2
          rw [List.length_cons] at hshort
          have haccept : (accept .comma).run ⟨comma :: middle, ending⟩ =
              .ok (true, ⟨middle, ending⟩) :=
            (run_accept_eq_ok_iff hending (by decide)).mpr
              (.inl ⟨comma, middle, rfl, hcomma, rfl, rfl⟩)
          obtain ⟨ys, hys, rfl⟩ := ih (by omega) (by omega) hreads hrest hnext
          refine ⟨y :: ys, ?_, rfl⟩
          rw [Rounds.ofCount_succ, commaSeparated, run_bind_of_ok hy, run_bind_of_ok haccept,
            if_pos rfl, run_bind_of_ok hys]
          rfl

end Commas

end Grammar

end Script
