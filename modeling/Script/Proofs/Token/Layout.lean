/-
# The layout of a source

Reading a source loses nothing. The text is a row of gaps and lexemes in turn: blanks and
comments, then a token, and so on, up to a last gap in front of the token that stands for
the end. Each token carries the characters it was read from and the positions at which they
begin and end, and these positions are what a reader would count from the beginning of the
text.
-/

import Mathlib.Data.List.Induction
import Script.Proofs.Token.Lexeme

namespace Script

namespace Position

/-- The position behind a text counts its characters, its lines and the characters of its
last line. -/
theorem advanceOver_start (text : List Char) :
    start.advanceOver text =
      ⟨text.length, 1 + text.count '\n', (text.reverse.takeWhile (· ≠ '\n')).length⟩ := by
  induction text using List.reverseRecOn with
  | nil => rfl
  | append_singleton text character ih =>
      rw [advanceOver_append, ih, advanceOver_cons, advanceOver_nil, advance,
        List.length_append, List.count_append, List.reverse_append]
      by_cases hfeed : character = '\n'
      · subst hfeed
        rfl
      · simp [hfeed]

@[simp] theorem offset_advanceOver_start (text : List Char) :
    (start.advanceOver text).offset = text.length := by
  rw [advanceOver_start]

/-- A position of a text: its offset is in the text, and its line and its column are those
that a reader counts from the beginning up to there. -/
structure Counts (position : Position) (text : List Char) : Prop where
  offset_le : position.offset ≤ text.length
  eq_advanceOver : position = start.advanceOver (text.take position.offset)
  line : position.line = 1 + (text.take position.offset).count '\n'
  column : position.column = ((text.take position.offset).reverse.takeWhile (· ≠ '\n')).length

theorem counts_advanceOver (before behind : List Char) :
    (start.advanceOver before).Counts (before ++ behind) := by
  constructor
  · simp
  · simp
  · simp [advanceOver_start]
  · simp [advanceOver_start]

end Position

namespace Token

/-! ## Gaps and lexemes -/

/-- Blanks and comments, one behind the other. A comment ends at the first closing behind
its opening. -/
inductive Gap : List Char → Prop
  | nil : Gap []
  | blank {character : Char} {rest : List Char}
      (h : character = ' ' ∨ character = '\r' ∨ character = '\t') (behind : Gap rest) :
      Gap (character :: rest)
  | comment {inner rest : List Char} (h : ¬ ['*', '/'] <:+: inner ++ ['*'])
      (behind : Gap rest) : Gap ('/' :: '*' :: (inner ++ '*' :: '/' :: rest))

/-- The characters of a token by themselves, with its kind and its value. -/
def IsLexeme (kind : Kind) (literal : Option Literal) (text : List Char) : Prop :=
  ∃ first after, text = first :: after ∧
    Piece.read first after = ⟨.token kind literal, after.length⟩

variable {source : Source} {front text rest : List Char} {first : Char} {after : List Char}
  {kind : Kind} {literal : Option Literal} {tokens : List Token} {token : Token}

theorem Gap.append {gap : List Char} (h : Gap gap) (hrest : Gap rest) : Gap (gap ++ rest) := by
  induction h with
  | nil => exact hrest
  | blank hblank _ ih => exact .blank hblank ih
  | @comment inner behind hinner _ ih =>
      rw [List.cons_append, List.cons_append, List.append_assoc]
      exact .comment hinner ih

namespace IsLexeme

theorem ne_nil (h : IsLexeme kind literal text) : text ≠ [] := by
  obtain ⟨first, after, rfl, _⟩ := h
  exact List.cons_ne_nil first after

theorem kind_ne (h : IsLexeme kind literal text) : kind ≠ .endOfInput := by
  obtain ⟨first, after, rfl, hread⟩ := h
  have hsettled := Piece.settles_read Interrupts.nil first after (by rw [hread]; exact nofun)
  exact hsettled.kind_ne kind literal (by rw [hread])

end IsLexeme

theorem gap_taken_comment (hstarts : startsWith after '*' = true)
    (h : (readComment after).content = .gap) :
    Gap ('/' :: after.take (readComment after).length) := by
  cases hcomment : commentLength? (after.drop 1) with
  | none =>
      rw [readComment, hcomment] at h
      cases h
  | some length =>
      rw [readComment, hcomment]
      cases after with
      | nil => cases hstarts
      | cons star after =>
          cases of_decide_eq_true hstarts
          obtain ⟨inner, rest, rfl, rfl, hnot⟩ := commentLength?_eq_some_iff.mp hcomment
          rw [List.take_succ_cons, List.take_length_add_append]
          exact .comment hnot .nil

/-- A piece that is not a token and has an end is a gap. -/
theorem gap_taken (h : (Piece.read first after).content = .gap) : Gap (taken first after) := by
  rw [taken]
  generalize hreader : Piece.read first = reader at *
  cases hreader ▸ Piece.reader_read first with
  | sign => cases h
  | relation => dsimp only at h; split at h <;> cases h
  | blank hblank => exact .blank hblank .nil
  | bang => dsimp only at h; split at h <;> cases h
  | slash hslash =>
      dsimp only at h ⊢
      split at h
      · next hstarts =>
        subst hslash
        rw [if_pos hstarts]
        exact gap_taken_comment hstarts h
      · cases h
  | point =>
      dsimp only at h
      split at h
      · rw [readNumber_eq] at h
        cases h
      · cases h
  | string => rw [readString] at h; split at h <;> cases h
  | number =>
      rw [readNumber_eq] at h
      cases h
  | name => cases h
  | illegal => cases h

theorem taken_append_untaken (first : Char) (after : List Char) :
    taken first after ++ untaken first after = first :: after := by
  rw [taken, untaken, List.cons_append, List.take_append_drop]

/-- The characters of a token are a lexeme by themselves. -/
theorem isLexeme_taken (h : (Piece.read first after).content = .token kind literal) :
    IsLexeme kind literal (taken first after) := by
  have hread : ∀ problem, (Piece.read first after).content ≠ .problem problem := by
    rw [h]
    exact nofun
  have hle := (Piece.settles_read Interrupts.nil first after hread).length_le
  refine ⟨first, _, rfl, ?_⟩
  rw [Piece.isLocal_read first after hread, List.length_take_of_le hle, ← h]

/-! ## A text as a row of gaps and lexemes -/

/-- How the rest of a source is cut into tokens, with the text in front of it. -/
inductive Cut (source : Source) : List Char → List Char → List Token → Prop
  | ending {front gap : List Char} (hgap : Gap gap) :
      Cut source front gap
        [atEnd ⟨source, Position.start.advanceOver (front ++ gap),
          Position.start.advanceOver (front ++ gap)⟩]
  | token {front gap lexeme rest : List Char} {kind : Kind} {literal : Option Literal}
      {tokens : List Token} (hgap : Gap gap) (hlexeme : IsLexeme kind literal lexeme)
      (behind : Cut source (front ++ gap ++ lexeme) rest tokens) :
      Cut source front (gap ++ lexeme ++ rest)
        (⟨kind, String.ofList lexeme, literal,
          ⟨source, Position.start.advanceOver (front ++ gap),
            Position.start.advanceOver (front ++ gap ++ lexeme)⟩⟩ :: tokens)

namespace Cut

theorem gap_append {gap : List Char} (hgap : Gap gap)
    (h : Cut source (front ++ gap) rest tokens) : Cut source front (gap ++ rest) tokens := by
  cases h with
  | ending hnext =>
      rw [List.append_assoc]
      exact .ending (hgap.append hnext)
  | @token _ next lexeme behind kind literal tokens hnext hlexeme hbehind =>
      rw [List.append_assoc front gap next] at hbehind ⊢
      rw [← List.append_assoc, ← List.append_assoc]
      exact .token (hgap.append hnext) hlexeme hbehind

/-- Reading cuts a text into gaps and lexemes. -/
theorem of_scanFrom (h : scanFrom source (Position.start.advanceOver front) rest = .ok tokens) :
    Cut source front rest tokens := by
  induction hsize : rest.length using Nat.strongRecOn generalizing front rest tokens with
  | ind size ih =>
    subst hsize
    cases rest with
    | nil =>
        rw [scanFrom] at h
        cases h
        have hend : Cut source front [] _ := .ending .nil
        rwa [List.append_nil] at hend
    | cons first after =>
        have hshorter := length_untaken_lt first after
        rw [← taken_append_untaken first after]
        cases hcontent : (Piece.read first after).content with
        | problem problem =>
            rw [scanFrom] at h
            simp only [hcontent] at h
            cases h
        | gap =>
            rw [scanFrom_of_gap hcontent, ← Position.advanceOver_append] at h
            exact gap_append (gap_taken hcontent) (ih _ hshorter h rfl)
        | token kind literal =>
            rw [scanFrom_of_token hcontent, ← Position.advanceOver_append] at h
            cases hothers : scanFrom source
              (Position.start.advanceOver (front ++ taken first after)) (untaken first after) with
            | error error =>
                rw [hothers] at h
                cases h
            | ok others =>
                rw [hothers] at h
                cases h
                have hbehind := ih _ hshorter hothers rfl
                have htoken : Cut source front ([] ++ taken first after ++ untaken first after) _ :=
                  .token .nil (isLexeme_taken hcontent) (by rwa [List.append_nil])
                rwa [List.append_nil] at htoken

/-- Where a token of the rest stands in the text. -/
theorem exists_place (h : Cut source front rest tokens) (htoken : token ∈ tokens) :
    ∃ before lexeme behind, front ++ rest = front ++ before ++ lexeme ++ behind ∧
      token.lexeme = String.ofList lexeme ∧
      token.span = ⟨source, Position.start.advanceOver (front ++ before),
        Position.start.advanceOver (front ++ before ++ lexeme)⟩ := by
  induction h with
  | @ending front gap _ =>
      cases List.mem_singleton.mp htoken
      exact ⟨gap, [], [], by simp, rfl, by simp [atEnd]⟩
  | @token front gap lexeme rest kind literal tokens hgap hlexeme hbehind ih =>
      obtain rfl | hin := List.mem_cons.mp htoken
      · exact ⟨gap, lexeme, rest, by simp, rfl, rfl⟩
      · obtain ⟨before, own, behind, htext, hown, hspan⟩ := ih hin
        refine ⟨gap ++ lexeme ++ before, own, behind, ?_, hown, ?_⟩
        · simpa using htext
        · simpa using hspan

/-- Tokens stand behind the text in front of them, one behind the other. -/
theorem pairwise (h : Cut source front rest tokens) :
    (∀ token ∈ tokens, front.length ≤ token.span.start.offset) ∧
      tokens.Pairwise fun earlier later => earlier.span.stop.offset ≤ later.span.start.offset := by
  induction h with
  | ending => simp [atEnd]
  | @token front gap lexeme rest kind literal tokens hgap hlexeme hbehind ih =>
      obtain ⟨hfront, hpairwise⟩ := ih
      have hlength : (front ++ gap ++ lexeme).length =
          front.length + gap.length + lexeme.length := by
        rw [List.length_append, List.length_append]
      rw [List.forall_mem_cons, List.pairwise_cons]
      refine ⟨⟨by simp, fun later hlater => ?_⟩, fun later hlater => ?_, hpairwise⟩
      · have hlater := hfront later hlater
        omega
      · simpa using hfront later hlater

/-- The last token stands for the end, and only that one is empty. -/
theorem exists_body (h : Cut source front rest tokens) :
    ∃ body, tokens = body ++ [atEnd ⟨source, Position.start.advanceOver (front ++ rest),
        Position.start.advanceOver (front ++ rest)⟩] ∧
      ∀ token ∈ body, IsLexeme token.kind token.literal token.lexeme.toList := by
  induction h with
  | ending => exact ⟨[], rfl, List.forall_mem_nil _⟩
  | @token front gap lexeme rest kind literal tokens hgap hlexeme hbehind ih =>
      obtain ⟨body, rfl, hbody⟩ := ih
      refine ⟨_ :: body, by rw [List.append_assoc, List.append_assoc]; rfl, ?_⟩
      rw [List.forall_mem_cons]
      refine ⟨?_, hbody⟩
      rwa [String.toList_ofList]

end Cut

/-- The characters of a text from an offset on that belong to no token: those in front of
each token, and those behind the last one. -/
def gaps (text : List Char) : Nat → List Token → List (List Char)
  | offset, [] => [text.drop offset]
  | offset, token :: others =>
    (text.drop offset).take (token.span.start.offset - offset) ::
      gaps text token.span.stop.offset others

namespace Cut

/-- What the tokens leave out are gaps, and with the lexemes they make up the text. -/
theorem gaps_lexemes (h : Cut source front rest tokens) (htext : text = front ++ rest) :
    (∀ gap ∈ gaps text front.length tokens, Gap gap) ∧
      (List.zipWith (· ++ ·) (gaps text front.length tokens)
        (tokens.map (·.lexeme.toList) ++ [[]])).flatten = rest := by
  induction h with
  | @ending front gap hgap =>
      subst htext
      simp [gaps, atEnd, hgap, Gap.nil]
  | @token front gap lexeme rest kind literal tokens hgap hlexeme hbehind ih =>
      obtain ⟨hgaps, hrest⟩ := ih (by rw [htext, List.append_assoc, List.append_assoc,
        List.append_assoc])
      have hfirst : (text.drop front.length).take ((front ++ gap).length - front.length) =
          gap := by
        rw [htext, List.append_assoc, List.drop_left, List.length_append,
          Nat.add_sub_cancel_left, List.take_left]
      simp only [gaps, Position.offset_advanceOver_start, hfirst]
      refine ⟨List.forall_mem_cons.mpr ⟨hgap, hgaps⟩, ?_⟩
      rw [List.map_cons, List.cons_append, List.zipWith_cons_cons, List.flatten_cons, hrest,
        String.toList_ofList]

end Cut

/-! ## The theorem -/

/-- Reading a source loses nothing and places everything. -/
structure Lossless (source : Source) (tokens : List Token) : Prop where
  /-- The last token stands for the end of the source. Only that one is empty. -/
  ending : ∃ body, tokens = body ++ [atEnd ⟨source, Position.start.advanceOver source.text.toList,
      Position.start.advanceOver source.text.toList⟩] ∧
    ∀ token ∈ body, token.kind ≠ .endOfInput ∧ token.lexeme ≠ ""
  /-- Tokens carry the characters that they cover. -/
  lexeme : ∀ token ∈ tokens, token.span.sources = source ∧ token.lexeme = token.span.text
  /-- Tokens stand one behind the other. -/
  ordered : tokens.Pairwise fun earlier later =>
    earlier.span.stop.offset ≤ later.span.start.offset
  /-- Tokens begin and end where a reader would say so. -/
  placed : ∀ token ∈ tokens, token.span.start.offset ≤ token.span.stop.offset ∧
    token.span.start.Counts source.text.toList ∧ token.span.stop.Counts source.text.toList
  /-- What the tokens leave out is blank or a comment. -/
  gap : ∀ gap ∈ gaps source.text.toList 0 tokens, Gap gap
  /-- Gaps and lexemes in turn are the text. -/
  whole : (List.zipWith (· ++ ·) (gaps source.text.toList 0 tokens)
    (tokens.map (·.lexeme.toList) ++ [[]])).flatten = source.text.toList

/-- A token that stands in a source between two texts. -/
theorem placed_of_place {before lexeme behind : List Char}
    (htext : source.text.toList = before ++ lexeme ++ behind)
    (hlexeme : token.lexeme = String.ofList lexeme)
    (hspan : token.span = ⟨source, Position.start.advanceOver before,
      Position.start.advanceOver (before ++ lexeme)⟩) :
    token.lexeme = token.span.text ∧ token.span.start.offset ≤ token.span.stop.offset ∧
      token.span.start.Counts source.text.toList ∧ token.span.stop.Counts source.text.toList := by
  rw [hspan, hlexeme]
  refine ⟨?_, by simp, ?_, htext ▸ Position.counts_advanceOver (before ++ lexeme) behind⟩
  · simp [Span.text, htext]
  · rw [htext, List.append_assoc]
    exact Position.counts_advanceOver before (lexeme ++ behind)

/-- Where a source can be read, reading it loses nothing and places everything. The text is
made of the lexemes, in order, with blanks and comments in between; each token carries the
characters it covers, and it begins and ends where a reader counts the characters, lines and
columns to. -/
theorem scan_lossless (h : scan source = .ok tokens) : Lossless source tokens := by
  have hcut : Cut source [] source.text.toList tokens := .of_scanFrom h
  obtain ⟨body, hbody, hlexemes⟩ := hcut.exists_body
  obtain ⟨-, hordered⟩ := hcut.pairwise
  obtain ⟨hgaps, hwhole⟩ := hcut.gaps_lexemes rfl
  have hplaces (token : Token) (htoken : token ∈ tokens) := hcut.exists_place htoken
  constructor
  case ending =>
    refine ⟨body, hbody, fun token htoken => ⟨(hlexemes token htoken).kind_ne, ?_⟩⟩
    intro hempty
    exact (hlexemes token htoken).ne_nil (by rw [hempty]; rfl)
  case ordered => exact hordered
  case gap => exact hgaps
  case whole => exact hwhole
  case lexeme =>
    intro token htoken
    obtain ⟨before, lexeme, behind, htext, hlexeme, hspan⟩ := hplaces token htoken
    exact ⟨by rw [hspan], (placed_of_place htext hlexeme hspan).1⟩
  case placed =>
    intro token htoken
    obtain ⟨before, lexeme, behind, htext, hlexeme, hspan⟩ := hplaces token htoken
    exact (placed_of_place htext hlexeme hspan).2

/-- A comment and a string with line feeds in them, and a number with a point. -/
theorem scan_lossless_of_commentedLine :
    ∃ tokens, scan ⟨"a = 1. /* first\n* second **/ + \"b\nc\"\n", "layout"⟩ = .ok tokens ∧
      Lossless ⟨"a = 1. /* first\n* second **/ + \"b\nc\"\n", "layout"⟩ tokens := by
  have hreads : (scan ⟨"a = 1. /* first\n* second **/ + \"b\nc\"\n", "layout"⟩).isOk = true := by
    decide +kernel
  cases hscan : scan ⟨"a = 1. /* first\n* second **/ + \"b\nc\"\n", "layout"⟩ with
  | error error =>
      rw [hscan] at hreads
      cases hreads
  | ok tokens => exact ⟨tokens, rfl, scan_lossless hscan⟩

end Token

end Script
