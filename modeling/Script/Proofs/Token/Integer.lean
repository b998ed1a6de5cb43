/-
# Integers of any length

Digits are one token, and so are digits with the suffix of a long number. However many digits
there are, the token has a value: the integer of its width that is congruent to what the
digits stand for.
-/

import Script.Proofs.Number.Digits
import Script.Proofs.Token.Layout
import Script.Proofs.Token.Member

namespace Script.Token

variable {digits text : List Char} {kind : Kind} {literal : Option Literal} {suffix : Char}

/-- The characters of a token are, by themselves, a source with that token. -/
theorem IsLexeme.exists_scan (h : IsLexeme kind literal text) (file : String) :
    ∃ span stop, scan ⟨String.ofList text, file⟩ =
      .ok [⟨kind, String.ofList text, literal, span⟩, atEnd stop] := by
  obtain ⟨first, after, rfl, hread⟩ := h
  let source : Source := ⟨String.ofList (first :: after), file⟩
  let stop := Position.start.advanceOver (first :: after)
  have hend : scanFrom source stop [] = .ok [atEnd ⟨source, stop, stop⟩] := by
    rw [scanFrom]
  have hread' : Piece.read first (after ++ []) = ⟨.token kind literal, after.length⟩ := by
    rw [List.append_nil, hread]
  obtain ⟨span, hspan⟩ := scanFrom_piece hread' hend
  rw [List.append_nil] at hspan
  exact ⟨span, _, (congrArg _ String.toList_ofList).trans hspan⟩

/-- Digits are a token, with a suffix if there is one. -/
theorem AreDigits.isLexeme (h : AreDigits digits) {suffix : List Char}
    (hlength : suffix.length = (startsWithSuffix suffix).toNat)
    (hstop : ∀ character ∈ suffix.head?, character.isDigit = false)
    (hpoint : fraction? suffix = none) :
    IsLexeme (numberKind (.ofDigits digits (startsWithSuffix suffix)))
      (some (.number (.ofDigits digits (startsWithSuffix suffix)))) (digits ++ suffix) := by
  obtain ⟨digit, others, rfl⟩ := List.exists_cons_of_ne_nil h.ne_nil
  refine ⟨digit, others ++ suffix, rfl, ?_⟩
  rw [read_of_isDigit (h.isDigit digit List.mem_cons_self), readNumber_eq, ← List.cons_append,
    Numeral.read_append_of_whole h.isDigit hstop hpoint]
  refine congrArg (Piece.mk _) ?_
  rw [Numeral.length, Option.elim_none, List.length_cons, List.length_append, hlength]
  dsimp only
  omega

/-- A text is one token of a kind. The value of the token is the integer of a width that is
congruent to a given number. -/
def DenotesInteger (text : List Char) (kind : Kind) (width value : Nat) (file : String) : Prop :=
  ∃ span stop number, scan ⟨String.ofList text, file⟩ =
      .ok [⟨kind, String.ofList text, some (.number number), span⟩, atEnd stop] ∧
    number.Reduces width value

theorem IsLexeme.denotes {number : Number} {width value : Nat}
    (h : IsLexeme kind (some (.number number)) text) (hvalue : number.Reduces width value)
    (file : String) : DenotesInteger text kind width value file := by
  obtain ⟨span, stop, hscan⟩ := h.exists_scan file
  exact ⟨span, stop, number, hscan, hvalue⟩

/-- Digits, however many, denote an integer of 32 bits, and one of 64 bits if a suffix is
behind them. What they stand for wraps to that width: it is not held back at a bound. -/
theorem AreDigits.denotesInteger (h : AreDigits digits) (file : String) :
    DenotesInteger digits .int 32 (Nat.ofDigitChars 10 digits 0) file ∧
      ∀ suffix ∈ ['L', 'l'],
        DenotesInteger (digits ++ [suffix]) .long 64 (Nat.ofDigitChars 10 digits 0) file := by
  rw [← Number.digitsValue_eq h.isDigit]
  have hint : IsLexeme .int (some (.number (.ofDigits digits false))) (digits ++ []) :=
    h.isLexeme rfl nofun rfl
  have hupper : IsLexeme .long (some (.number (.ofDigits digits true))) (digits ++ ['L']) :=
    h.isLexeme rfl (by rintro _ ⟨⟩; rfl) rfl
  have hlower : IsLexeme .long (some (.number (.ofDigits digits true))) (digits ++ ['l']) :=
    h.isLexeme rfl (by rintro _ ⟨⟩; rfl) rfl
  have hlong := Number.reduces_ofDigits_long digits
  rw [List.append_nil] at hint
  refine ⟨hint.denotes (Number.reduces_ofDigits_int digits) file, ?_⟩
  exact List.forall_mem_cons.mpr ⟨hupper.denotes hlong file,
    List.forall_mem_singleton.mpr (hlower.denotes hlong file)⟩

/-- One more than `2 ^ 64`, which is one more than a multiple of `2 ^ 32` too. -/
theorem AreDigits.denotesInteger_of_overflow :
    let digits := "18446744073709551617".toList
    AreDigits digits ∧ DenotesInteger digits .int 32 (2 ^ 64 + 1) "long" ∧
      DenotesInteger (digits ++ ['L']) .long 64 (2 ^ 64 + 1) "long" := by
  intro digits
  have hdigits : AreDigits digits := ⟨List.all_eq_true.mp rfl, List.cons_ne_nil _ _⟩
  obtain ⟨hint, hlong⟩ := AreDigits.denotesInteger hdigits "long"
  exact ⟨hdigits, hint, hlong 'L' (.head _)⟩

/-- The greatest number of 32 bits without a sign is minus one. -/
example : Number.ofDigits "4294967295".toList false = .int (-1) := rfl

end Script.Token
