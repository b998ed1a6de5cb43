/-
# Genuine spans

A span is genuine if it is a range of its source whose ends are where a reader would count
them to be. The spans of tokens are genuine, and so is the span that a lexical error
reports. A span that reaches from one genuine span to another that does not begin earlier is
genuine, so a parser can only make genuine spans as long as it goes on in the row of tokens.
-/

import Script.Proofs.Syntax.Rules
import Script.Proofs.Token.Layout

namespace Script

/-- A span of a source: both ends are in this source and in its text, in order, and each has
the line and the column of the place where it is. -/
structure Span.GenuineIn (span : Span) (source : Source) : Prop where
  origin : span.sources = source
  start_le_stop : span.start.offset ≤ span.stop.offset
  start : span.start.Counts source.text.toList
  stop : span.stop.Counts source.text.toList

/-- From one span of a source to another, both ends are in this source. -/
theorem Span.sources_through {first last : Span} {source : Source}
    (hfirst : first.sources = source) (hlast : last.sources = source) :
    (first.through last).sources = source := by
  rw [through, hfirst, hlast]

/-- A part of a text has a genuine span. -/
theorem Span.genuineIn_of_text {source : Source} {before part behind : List Char}
    (h : source.text.toList = before ++ part ++ behind) :
    Span.GenuineIn ⟨source, Position.start.advanceOver before,
      Position.start.advanceOver (before ++ part)⟩ source := by
  refine ⟨rfl, by simp, ?_, h ▸ Position.counts_advanceOver (before ++ part) behind⟩
  rw [h, List.append_assoc]
  exact Position.counts_advanceOver before (part ++ behind)

/-- The rules that ask for all spans to be genuine in a source. -/
def Rules.genuineIn (source : Source) : Rules Span := ⟨(·.GenuineIn source), False⟩

/-! ## Tokens -/

namespace Token

variable {source : Source} {tokens : List Token} {token : Token}

/-- The tokens of a source have genuine spans. -/
theorem genuineIn_of_scan (h : scan source = .ok tokens) (htoken : token ∈ tokens) :
    token.span.GenuineIn source := by
  have hlossless := scan_lossless h
  obtain ⟨hle, hstart, hstop⟩ := hlossless.placed token htoken
  exact ⟨(hlossless.lexeme token htoken).1, hle, hstart, hstop⟩

/-- The span of a lexical error is genuine, wherever the reading had come to. -/
theorem genuineIn_of_scanFrom {front rest : List Char} {error : LexError}
    (htext : source.text.toList = front ++ rest)
    (h : scanFrom source (Position.start.advanceOver front) rest = .error error) :
    error.span.GenuineIn source := by
  induction hsize : rest.length using Nat.strongRecOn generalizing front rest with
  | ind size ih =>
    subst hsize
    cases rest with
    | nil =>
        rw [scanFrom] at h
        cases h
    | cons first after =>
        have hshorter := length_untaken_lt first after
        have hbehind : source.text.toList =
            front ++ taken first after ++ untaken first after := by
          rw [htext, List.append_assoc, taken_append_untaken]
        cases hcontent : (Piece.read first after).content with
        | problem problem =>
            rw [scanFrom] at h
            simp only [hcontent] at h
            cases h
            have hgenuine := Span.genuineIn_of_text hbehind
            rwa [Position.advanceOver_append] at hgenuine
        | gap =>
            rw [scanFrom_of_gap hcontent, ← Position.advanceOver_append] at h
            exact ih _ hshorter hbehind h rfl
        | token kind literal =>
            rw [scanFrom_of_token hcontent, ← Position.advanceOver_append] at h
            cases hothers : scanFrom source
              (Position.start.advanceOver (front ++ taken first after)) (untaken first after) with
            | error other =>
                rw [hothers] at h
                cases h
                exact ih _ hshorter hbehind hothers rfl
            | ok others =>
                rw [hothers] at h
                cases h

/-- The span of a lexical error is genuine. -/
theorem genuineIn_of_scan_error {error : LexError} (h : scan source = .error error) :
    error.span.GenuineIn source :=
  @genuineIn_of_scanFrom source [] source.text.toList error rfl h

end Token

end Script
