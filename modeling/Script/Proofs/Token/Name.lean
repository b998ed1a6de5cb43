/-
# The identifiers of a source

A lexeme that is read as an identifier is spelt as one: it begins as a name does and goes on
as one to its end, and no keyword is spelt so.
-/

import Script.Proofs.Token.Layout
import Script.Proofs.Token.Member

namespace Script.Token

variable {first : Char} {after text : List Char} {literal : Option Literal}

/-- No sign is an identifier. -/
theorem ne_identifier_of_sign :
    (∀ kind, punctuation? first = some kind → kind ≠ .identifier) ∧
      ∀ alone withEqual, relation? first = some (alone, withEqual) →
        alone ≠ .identifier ∧ withEqual ≠ .identifier := by
  constructor
  · intro kind hkind
    rw [punctuation?.eq_def] at hkind
    split at hkind <;> cases hkind <;> decide
  · intro alone withEqual hkinds
    rw [relation?.eq_def] at hkinds
    split at hkinds <;> cases hkinds <;> decide

/-- No comment, no string and no number is an identifier. -/
theorem content_ne_identifier :
    (readComment after).content ≠ .token .identifier literal ∧
      (readString after).content ≠ .token .identifier literal ∧
      (readNumber first after).content ≠ .token .identifier literal := by
  refine ⟨?_, ?_, ?_⟩
  · rw [readComment]
    split <;> rintro ⟨⟩
  · rw [readString]
    split <;> rintro ⟨⟩
  · rw [readNumber_eq]
    exact fun hcontent => numberKind_ne (by decide) _ (Content.token.inj hcontent).1

/-- Only what begins as a name is read as an identifier. -/
theorem isNameStart_of_read (h : (Piece.read first after).content = .token .identifier literal) :
    isNameStart first = true := by
  obtain ⟨hpunctuation, hrelation⟩ := @ne_identifier_of_sign first
  obtain ⟨hcomment, hstring, hnumber⟩ := @content_ne_identifier first after literal
  rw [Piece.read] at h
  split at h
  · next kind _ hkind =>
    cases h
    exact (hpunctuation _ hkind rfl).elim
  · next alone withEqual _ hkinds =>
    obtain ⟨halone, hwithEqual⟩ := hrelation alone withEqual hkinds
    split at h
    · cases h
      exact (hwithEqual rfl).elim
    · cases h
      exact (halone rfl).elim
  · repeat' split at h
    all_goals first
      | assumption
      | exact (hcomment h).elim
      | exact (hstring h).elim
      | exact (hnumber h).elim
      | cases h

/-- The characters of an identifier are spelt as one. -/
theorem IsLexeme.isIdentifier (h : IsLexeme .identifier literal text) : IsIdentifier text := by
  obtain ⟨first, after, rfl, hread⟩ := h
  have hstart := isNameStart_of_read (congrArg Piece.content hread)
  rw [read_of_isNameStart hstart, readName, Piece.plain, Piece.mk.injEq,
    Content.token.injEq] at hread
  obtain ⟨⟨hkind, -⟩, hlength⟩ := hread
  have hrun : after.takeWhile isNamePart = after :=
    (List.takeWhile_prefix isNamePart).eq_of_length hlength
  rw [hrun] at hkind
  refine ⟨by rintro _ ⟨⟩; exact hstart, List.takeWhile_eq_self_iff.mp hrun,
    List.cons_ne_nil _ _, ?_⟩
  intro word hword
  rw [← hword, Keyword.ofSpelling?_spelling] at hkind
  cases hkind

/-- All identifiers among the tokens of a source are spelt as such. -/
theorem isIdentifier_of_scan {source : Source} {tokens : List Token}
    (h : scan source = .ok tokens) :
    ∀ token ∈ tokens, token.kind = .identifier → IsIdentifier token.lexeme.toList := by
  have hcut : Cut source [] source.text.toList tokens := Cut.of_scanFrom h
  obtain ⟨body, rfl, hbody⟩ := hcut.exists_body
  intro token htoken hkind
  obtain hin | hin := List.mem_append.mp htoken
  · exact (hkind ▸ hbody token hin).isIdentifier
  · rw [List.mem_singleton.mp hin] at hkind
    cases hkind

end Script.Token
