/-
# String literals

The tokens of kind string are the texts that are written as strings, and the value of such
a token is the string that is written. A text that is one string, in whichever way it is
written, is one token.
-/

import Script.Proofs.Token.Spacing

namespace Script.Token

/-- A text that is a string in quotes. -/
def Quotes (value : String) (text : List Char) : Prop :=
  ∃ inner, WritesEach value.toList inner ∧ text = '"' :: (inner ++ ['"'])

variable {source : Source} {tokens : List Token} {token : Token} {value : String}
  {first : Char} {after text : List Char} {literal : Option Literal}

/-- Only a quote begins a string. -/
theorem eq_quote_of_read (h : (Piece.read first after).content = .token .string literal) :
    first = '"' := by
  have hnumber (first : Char) : (readNumber first after).content ≠ .token .string literal := by
    rw [readNumber_eq]
    exact fun heq => numberKind_ne (by decide) _ (Content.token.inj heq).1
  generalize hreader : Piece.read first = reader at h
  cases hreader ▸ Piece.reader_read first with
  | sign hkind =>
      cases h
      cases hkind
  | relation halone hwithEqual =>
      dsimp only at h
      split at h
      · cases h
        cases hwithEqual
      · cases h
        cases halone
  | blank => cases h
  | bang => dsimp only at h; split at h <;> cases h
  | slash =>
      dsimp only at h
      split at h
      · rw [readComment] at h
        split at h <;> cases h
      · cases h
  | point =>
      dsimp only at h
      split at h
      · exact absurd h (hnumber first)
      · cases h
  | string hquote => exact hquote
  | number => exact absurd h (hnumber first)
  | name =>
      have hkind := (Content.token.inj h).1
      split at hkind <;> cases hkind
  | illegal => cases h

/-- The lexemes of kind string are the strings in quotes. -/
theorem isLexeme_string_iff :
    IsLexeme .string literal text ↔
      ∃ value, Quotes value text ∧ literal = some (.string value) := by
  have hquote (after : List Char) : Piece.read '"' after = readString after := rfl
  constructor
  · rintro ⟨first, after, rfl, hread⟩
    obtain rfl := eq_quote_of_read (congrArg Piece.content hread)
    rw [hquote, readString] at hread
    split at hread
    · next value length hbody =>
      obtain ⟨inner, rest, hinner, rfl, rfl⟩ := stringBody?_eq_some_iff.mp hbody
      rw [Piece.mk.injEq, Content.token.injEq, List.length_append, List.length_cons] at hread
      obtain ⟨⟨-, rfl⟩, hlength⟩ := hread
      obtain rfl : rest = [] := List.eq_nil_of_length_eq_zero (by omega)
      exact ⟨_, ⟨inner, by rwa [String.toList_ofList], rfl⟩, rfl⟩
    · cases hread
  · rintro ⟨value, ⟨inner, hinner, rfl⟩, rfl⟩
    refine ⟨'"', inner ++ ['"'], rfl, ?_⟩
    rw [hquote, readString, stringBody?_writesEach hinner, List.length_append]
    dsimp only
    rw [String.ofList_toList]
    rfl

/-- A string in quotes is one token, and then the source ends. -/
theorem scan_of_quotes (file : String) {text : String} (h : Quotes value text.toList) :
    let source : Source := ⟨text, file⟩
    let stop := Position.start.advanceOver text.toList
    scan source = .ok
      [⟨.string, text, some (.string value), ⟨source, .start, stop⟩⟩,
        atEnd ⟨source, stop, stop⟩] := by
  intro source stop
  have hlexeme : IsLexeme .string (some (.string value)) text.toList :=
    isLexeme_string_iff.mpr ⟨value, h, rfl⟩
  have hread : scanFrom source .start (text.toList ++ []) = _ :=
    scanFrom_lexeme hlexeme Interrupts.nil
  rw [List.append_nil, scanFrom, String.ofList_toList] at hread
  exact hread

/-- A token of kind string is a string in quotes. -/
theorem exists_quotes_of_mem (h : scan source = .ok tokens) (htoken : token ∈ tokens)
    (hkind : token.kind = .string) :
    ∃ value, token.literal = some (.string value) ∧ Quotes value token.lexeme.toList := by
  have hcut : Cut source [] source.text.toList tokens := .of_scanFrom h
  obtain ⟨body, rfl, hlexemes⟩ := hcut.exists_body
  obtain hbody | hend := List.mem_append.mp htoken
  · have hlexeme := hlexemes token hbody
    rw [hkind, isLexeme_string_iff] at hlexeme
    obtain ⟨value, hquotes, hliteral⟩ := hlexeme
    exact ⟨value, hliteral, hquotes⟩
  · rw [List.mem_singleton.mp hend] at hkind
    cases hkind

/-- String literals are read as the strings that are written. A text is one token of kind
string, with a given value, if and only if it is that value in quotes, in whichever way its
characters are written; and every token of that kind, in any source, is its value in
quotes. -/
theorem scan_string_iff_quotes :
    (∀ value text file : String,
      let source : Source := ⟨text, file⟩
      let stop := Position.start.advanceOver text.toList
      Quotes value text.toList ↔ scan source = .ok
        [⟨.string, text, some (.string value), ⟨source, .start, stop⟩⟩,
          atEnd ⟨source, stop, stop⟩]) ∧
    ∀ (source : Source) (tokens : List Token), scan source = .ok tokens →
      ∀ token ∈ tokens, token.kind = .string →
        ∃ value, token.literal = some (.string value) ∧ Quotes value token.lexeme.toList := by
  refine ⟨fun value text file => ⟨scan_of_quotes file, fun h => ?_⟩,
    fun source tokens h token htoken hkind => exists_quotes_of_mem h htoken hkind⟩
  obtain ⟨other, hliteral, hquotes⟩ := exists_quotes_of_mem h List.mem_cons_self rfl
  cases hliteral
  exact hquotes

/-- A backslash, a quote and a letter behind backslashes, a line feed as itself and a tab by
its letter. -/
theorem scan_string_iff_quotes_of_backslashes :
    Quotes "\\\"\n\tq" "\"\\\\\\\"\n\\t\\q\"".toList ∧
      ∃ span stop, scan ⟨"\"\\\\\\\"\n\\t\\q\"", "quoted"⟩ = .ok
        [⟨.string, "\"\\\\\\\"\n\\t\\q\"", some (.string "\\\"\n\tq"), span⟩, atEnd stop] := by
  have hquotes : Quotes "\\\"\n\tq" "\"\\\\\\\"\n\\t\\q\"".toList :=
    ⟨['\\', '\\', '\\', '"', '\n', '\\', 't', '\\', 'q'],
      .cons (.escaped (by decide)) (.cons (.escaped (by decide)) (.cons (.raw (by decide))
        (.cons .tab (.cons (.escaped (by decide)) .nil)))), rfl⟩
  exact ⟨hquotes, _, _, (scan_string_iff_quotes.1 _ _ "quoted").mp hquotes⟩

end Script.Token
