/-
# Parsers make genuine spans

Of a parser it is stated what it makes of a row of tokens with genuine spans that begin one
behind the other: if it fails, then at a genuine span, and if it gives a result, then one
about which something is known, and the tokens that it leaves do not begin before a place
that it tells. The rule for parsers in a row hands this place on, so that a span from a first
token to a last tree is known to end behind its beginning.
-/

import Script.Proofs.Grammar.Recognition
import Script.Proofs.Parser.Steady
import Script.Proofs.Span.Genuine

namespace Script

variable {source : Source} {lo mid hi : Nat}

/-! ## Rows of tokens -/

namespace TokenStream

variable {stream : TokenStream} {token : Token}

/-- The tokens of a stream with the one that stands for its end. -/
def row (stream : TokenStream) : List Token := stream.rest ++ [stream.ending]

/-- The tokens of a stream have genuine spans, and they begin one behind the other, the first
not before an offset. -/
structure Fits (source : Source) (lo : Nat) (stream : TokenStream) : Prop where
  genuine : ∀ token ∈ stream.row, token.span.GenuineIn source
  le : ∀ token ∈ stream.row, lo ≤ token.span.start.offset
  ordered : stream.row.Pairwise fun earlier later =>
    earlier.span.start.offset ≤ later.span.start.offset

theorem peek_mem (stream : TokenStream) : stream.peek ∈ stream.row := by
  obtain ⟨rest, ending⟩ := stream
  cases rest with
  | nil => exact List.mem_singleton_self ending
  | cons token rest => exact List.mem_cons_self

theorem peekAt_mem (stream : TokenStream) (distance : Nat) :
    stream.peekAt distance ∈ stream.row := by
  rw [peekAt]
  cases htoken : stream.rest[distance]? with
  | some token => exact List.mem_append_left _ (List.mem_of_getElem? htoken)
  | none => exact List.mem_append_right _ (List.mem_singleton_self _)

namespace Fits

/-- What is left of a row fits where the row does. -/
theorem of_suffix {rest : List Token} (h : Fits source lo stream) (hrest : rest <:+ stream.rest) :
    Fits source lo ⟨rest, stream.ending⟩ := by
  have hsublist : (TokenStream.mk rest stream.ending).row.Sublist stream.row :=
    hrest.sublist.append_right _
  exact ⟨fun token htoken => h.genuine token (hsublist.subset htoken),
    fun token htoken => h.le token (hsublist.subset htoken), h.ordered.sublist hsublist⟩

/-- Every token begins at the first one or behind its beginning. -/
theorem peek_le (h : Fits source lo stream) (htoken : token ∈ stream.row) :
    stream.peek.span.start.offset ≤ token.span.start.offset := by
  obtain ⟨rest, ending⟩ := stream
  cases rest with
  | nil => rw [List.mem_singleton.mp htoken]; rfl
  | cons first rest =>
      obtain rfl | hin := List.mem_cons.mp htoken
      · rfl
      · exact (List.pairwise_cons.mp h.ordered).1 token hin

theorem front (h : Fits source lo stream) :
    Fits source stream.peek.span.start.offset stream :=
  ⟨h.genuine, fun _ htoken => h.peek_le htoken, h.ordered⟩

theorem tail (h : Fits source lo stream) :
    Fits source stream.peek.span.start.offset stream.tail :=
  h.front.of_suffix (List.tail_suffix _)

theorem pastSeparators (h : Fits source lo stream) : Fits source lo stream.pastSeparators :=
  h.of_suffix (List.dropWhile_suffix _)

end Fits

end TokenStream

/-! ## Spans that begin in a range -/

/-- A genuine span that begins in a range of offsets. -/
structure Span.OpensIn (source : Source) (lo hi : Nat) (span : Span) : Prop where
  genuine : span.GenuineIn source
  lo_le : lo ≤ span.start.offset
  le_hi : span.start.offset ≤ hi

namespace Span.OpensIn

variable {span last : Span}

theorem mono {lo' hi' : Nat} (h : span.OpensIn source lo hi) (hlo : lo' ≤ lo) (hhi : hi ≤ hi') :
    span.OpensIn source lo' hi' :=
  ⟨h.genuine, Nat.le_trans hlo h.lo_le, Nat.le_trans h.le_hi hhi⟩

/-- A span that reaches from one to another behind it. Both are spans of one source, so
neither end leaves it. -/
theorem through (h : span.OpensIn source lo mid) (hlast : last.OpensIn source mid hi) :
    (span.through last).OpensIn source lo hi := by
  have hle : span.start.offset ≤ last.stop.offset :=
    Nat.le_trans (Nat.le_trans h.le_hi hlast.lo_le) hlast.genuine.start_le_stop
  have hgenuine : (span.through last).GenuineIn source :=
    ⟨sources_through h.genuine.origin hlast.genuine.origin, hle, h.genuine.start,
      hlast.genuine.stop⟩
  exact ⟨hgenuine, h.lo_le, Nat.le_trans h.le_hi (Nat.le_trans hlast.lo_le hlast.le_hi)⟩

end Span.OpensIn

theorem TokenStream.Fits.peek_opensIn {stream : TokenStream} (h : stream.Fits source lo) :
    stream.peek.span.OpensIn source lo stream.peek.span.start.offset :=
  ⟨h.genuine _ stream.peek_mem, h.le _ stream.peek_mem, Nat.le_refl _⟩

/-! ## Parsers -/

namespace Parser

variable {α β : Type}

/-- What a parser makes of tokens that fit a source from an offset on. -/
structure Places (source : Source) (lo : Nat) (parser : Parser α) (post : Nat → α → Prop) :
    Prop where
  error : ∀ {stream error}, stream.Fits source lo → parser.run stream = .error error →
    error.span.GenuineIn source
  ok : ∀ {stream a after}, stream.Fits source lo → parser.run stream = .ok (a, after) →
    ∃ hi, lo ≤ hi ∧ after.Fits source hi ∧ post hi a

variable {parser : Parser α} {next : α → Parser β} {post post' : Nat → α → Prop}

theorem Places.bind {post' : Nat → β → Prop} (h : Places source lo parser post)
    (hnext : ∀ mid a, lo ≤ mid → post mid a → Places source mid (next a) post') :
    Places source lo (parser >>= next) post' where
  error := by
    intro stream error hfits herror
    cases hrun : parser.run stream with
    | error first =>
        rw [run_bind_of_error hrun] at herror
        cases herror
        exact h.error hfits hrun
    | ok result =>
        obtain ⟨mid, hle, hmiddle, hpost⟩ := h.ok hfits hrun
        rw [run_bind_of_ok hrun] at herror
        exact (hnext mid _ hle hpost).error hmiddle herror
  ok := by
    intro stream b after hfits hok
    obtain ⟨a, middle, hrun, hok⟩ := run_bind_eq_ok_iff.mp hok
    obtain ⟨mid, hle, hmiddle, hpost⟩ := h.ok hfits hrun
    obtain ⟨hi, hle', hafter, hpost'⟩ := (hnext mid a hle hpost).ok hmiddle hok
    exact ⟨hi, Nat.le_trans hle hle', hafter, hpost'⟩

theorem places_pure {a : α} (h : post lo a) : Places source lo (pure a) post where
  error _ herror := by cases herror
  ok hfits hok := by
    cases hok
    exact ⟨lo, Nat.le_refl lo, hfits, h⟩

theorem places_throw {error : SyntaxError} (h : error.span.GenuineIn source) :
    Places source lo (throw error) post where
  error _ herror := by
    cases herror
    exact h
  ok _ hok := by cases hok

theorem places_fail (problem : SyntaxProblem) : Places source lo (fail problem) post where
  error hfits herror := by
    cases herror
    exact hfits.genuine _ (TokenStream.peek_mem _)
  ok _ hok := by cases hok

theorem Places.imp (h : Places source lo parser post)
    (himp : ∀ hi a, lo ≤ hi → post hi a → post' hi a) : Places source lo parser post' where
  error := h.error
  ok hfits hok := by
    obtain ⟨hi, hle, hafter, hpost⟩ := h.ok hfits hok
    exact ⟨hi, hle, hafter, himp hi _ hle hpost⟩

theorem places_ite {condition : Prop} [Decidable condition] {other : Parser α}
    (h : condition → Places source lo parser post)
    (h' : ¬ condition → Places source lo other post) :
    Places source lo (if condition then parser else other) post := by
  split
  · exact h ‹_›
  · exact h' ‹_›

/-! ## Taking and looking at tokens -/

/-- A parser that looks at the tokens before it goes on. -/
theorem places_get {next : TokenStream → Parser α}
    (h : ∀ stream, stream.Fits source lo → Places source lo (next stream) post) :
    Places source lo (get >>= next) post where
  error hfits herror := (h _ hfits).error hfits herror
  ok hfits hok := (h _ hfits).ok hfits hok

/-- A parser that goes by the kind of the next token. -/
theorem places_byKind {next : Token.Kind → Parser α}
    (h : ∀ kind, Places source lo (next kind) post) :
    Places source lo (peekKind >>= next) post :=
  places_get fun stream _ => h stream.peek.kind

theorem places_byKindPastSeparators {next : Token.Kind → Parser α}
    (h : ∀ kind, Places source lo (next kind) post) :
    Places source lo (kindPastSeparators >>= next) post :=
  places_get fun stream _ => h stream.pastSeparators.peek.kind

theorem places_peek :
    Places source lo peek fun hi token => token.span.OpensIn source lo hi where
  error _ herror := by cases herror
  ok hfits hok := by
    cases hok
    exact ⟨_, hfits.le _ (TokenStream.peek_mem _), hfits.front, hfits.peek_opensIn⟩

theorem places_advance :
    Places source lo advance fun hi token => token.span.OpensIn source lo hi where
  error _ herror := by cases herror
  ok hfits hok := by
    cases hok
    exact ⟨_, hfits.le _ (TokenStream.peek_mem _), hfits.tail, hfits.peek_opensIn⟩

theorem places_skipSeparators : Places source lo skipSeparators fun _ _ => True where
  error _ herror := by cases herror
  ok hfits hok := by
    cases hok
    exact ⟨lo, Nat.le_refl lo, hfits.pastSeparators, trivial⟩

theorem places_expect (kind : Token.Kind) (problem : SyntaxProblem) :
    Places source lo (expect kind problem) fun hi token => token.span.OpensIn source lo hi :=
  places_byKind fun _ => places_ite (fun _ => places_advance) fun _ => places_fail problem

theorem places_accept (kind : Token.Kind) : Places source lo (accept kind) fun _ _ => True := by
  refine places_byKind fun _ => places_ite (fun _ => ?_) fun _ => places_pure trivial
  exact places_advance.bind fun _ _ _ _ => places_pure trivial

/-! ## Rows of items -/

section Items

variable {item : Parser α} {good : α → Prop}
  (hitem : ∀ lo, Places source lo item fun _ a => good a)

include hitem

theorem places_commaSeparated (bound : Nat) :
    Places source lo (commaSeparated item bound) fun _ items => ∀ a ∈ items, good a := by
  induction bound generalizing lo with
  | zero => exact places_fail _
  | succ bound ih =>
      refine (hitem lo).bind fun mid first _ hfirst => (places_accept .comma).bind ?_
      refine fun _ taken _ _ => places_ite (fun _ => ?_) fun _ => places_pure ?_
      · refine ih.bind fun _ others _ hothers => places_pure ?_
        exact List.forall_mem_cons.mpr ⟨hfirst, hothers⟩
      · exact List.forall_mem_singleton.mpr hfirst

theorem places_itemsBefore (close : Token.Kind) (bound : Nat) :
    Places source lo (itemsBefore close item bound) fun _ items => ∀ a ∈ items, good a := by
  refine places_byKind fun _ => places_ite (fun _ => places_pure ?_) fun _ => ?_
  · exact fun a ha => absurd ha List.not_mem_nil
  · exact places_commaSeparated hitem bound

end Items

end Parser

end Script
