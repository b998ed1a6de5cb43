/-
# Texts that spell things out

A text spells something out if, wherever it stands in front of a comma, a closing brace or
the end, its tokens are read as that thing by a rule of the grammar. Numbers, names and
quoted texts spell out literals, and what is between braces spells out a list.
-/

import Script.Proofs.Grammar.Basic
import Script.Proofs.Token.Spacing
import Script.Proofs.Value.Data

namespace Script

open Token Grammar

/-! ## Pieces in front of a comma or a brace -/

namespace Token

/-- A text that begins with a comma or a closing brace, if it is not empty. -/
def Delimits (text : List Char) : Prop :=
  ∀ character ∈ text.head?, character = ',' ∨ character = '}'

variable {extra : List Char}

theorem Delimits.nil : Delimits [] := nofun

theorem Delimits.comma (text : List Char) : Delimits (',' :: text) := by
  rintro character ⟨⟩
  exact .inl rfl

theorem Delimits.brace (text : List Char) : Delimits ('}' :: text) := by
  rintro character ⟨⟩
  exact .inr rfl

/-- A run of characters is not longer in front of a delimiter, if that is not of it. -/
theorem Delimits.takeWhile_append (h : Delimits extra) {p : Char → Bool}
    (hp : p ',' = false ∧ p '}' = false) {run : List Char}
    (hrun : ∀ character ∈ run, p character = true) :
    (run ++ extra).takeWhile p = run ∧ (run ++ extra).dropWhile p = extra := by
  refine takeWhile_append_stop hrun fun character hcharacter => ?_
  obtain rfl | rfl := h character hcharacter
  · exact hp.1
  · exact hp.2

/-- The digits of a number without a point and without a suffix. -/
theorem Delimits.read_numeral (h : Delimits extra) {digits : List Char}
    (hdigits : ∀ digit ∈ digits, digit.isDigit = true) :
    Numeral.read (digits ++ extra) = ⟨digits, none, false⟩ := by
  have hstop : ∀ character ∈ extra.head?, character.isDigit = false := by
    intro character hcharacter
    obtain rfl | rfl := h character hcharacter <;> rfl
  have hrest : fraction? extra = none ∧ startsWithSuffix extra = false := by
    cases extra with
    | nil => exact ⟨rfl, rfl⟩
    | cons character extra => obtain rfl | rfl := h character rfl <;> exact ⟨rfl, rfl⟩
  rw [Numeral.read_append_of_whole hdigits hstop hrest.1, hrest.2]

theorem readNumber_of_digits (h : Delimits extra) {digit : Char} {digits : List Char}
    (hdigits : ∀ character ∈ digit :: digits, character.isDigit = true) :
    readNumber digit (digits ++ extra) =
      ⟨.token .int (some (.number (.ofDigits (digit :: digits) false))), digits.length⟩ := by
  rw [readNumber_eq, ← List.cons_append, h.read_numeral hdigits]
  rfl

theorem readName_of_parts (h : Delimits extra) (first : Char) {others : List Char}
    (hothers : ∀ character ∈ others, isNamePart character = true)
    (hkeyword : Keyword.ofSpelling? (String.ofList (first :: others)) = none) :
    readName first (others ++ extra) = .plain .identifier others.length := by
  rw [readName, (h.takeWhile_append (by decide) hothers).1, hkeyword]

end Token

/-! ## Spelling things out -/

namespace Grammar

variable {α β : Type} {read : Reading α}

/-- A text is read as a thing by a rule of the grammar, wherever it stands in front of a
delimiter. What the tokens behind it are does not matter. -/
def SpellsOut (read : Reading α) (text : List Char) (x : α) : Prop :=
  ∀ (source : Source) (position : Position) {extra : List Char} {tokens : List Token},
    Delimits extra → scanFrom source (position.advanceOver text) extra = .ok tokens →
    ∃ body, scanFrom source position (text ++ extra) = .ok (body ++ tokens) ∧
      (∀ token ∈ body, token.kind ≠ .endOfInput) ∧
      ∀ rest, read (body ++ rest) rest x

theorem SpellsOut.imp {other : Reading β} {text : List Char} {x : α} {y : β}
    (h : SpellsOut read text x)
    (himp : ∀ {tokens rest}, read tokens rest x → other tokens rest y) :
    SpellsOut other text y := by
  intro source position extra tokens hextra hscan
  obtain ⟨body, hbody, hkinds, hread⟩ := h source position hextra hscan
  exact ⟨body, hbody, hkinds, fun rest => himp (hread rest)⟩

/-- A sign is a token whatever is behind it. -/
theorem scanFrom_sign {source : Source} {position : Position} {first : Char}
    {extra : List Char} {tokens : List Token} (kind : Kind)
    (hread : Piece.read first extra = .plain kind 0)
    (h : scanFrom source (position.advance first) extra = .ok tokens) :
    ∃ sign : Token, sign.kind = kind ∧
      scanFrom source position (first :: extra) = .ok (sign :: tokens) := by
  have hpiece : Piece.read first ([] ++ extra) = ⟨.token kind none, ([] : List Char).length⟩ :=
    hread
  obtain ⟨span, hspan⟩ := scanFrom_piece hpiece h
  exact ⟨_, rfl, hspan⟩

theorem spellsOut_piece {first : Char} {after : List Char} (kind : Kind)
    (literal : Option Literal) {x : α}
    (hpiece : ∀ {extra}, Delimits extra →
      Piece.read first (after ++ extra) = ⟨.token kind literal, after.length⟩)
    (hkind : kind ≠ .endOfInput)
    (hread : ∀ span rest,
      read (⟨kind, String.ofList (first :: after), literal, span⟩ :: rest) rest x) :
    SpellsOut read (first :: after) x := by
  intro source position extra tokens hextra hscan
  obtain ⟨span, hspan⟩ := scanFrom_piece (hpiece hextra) hscan
  exact ⟨[_], hspan, List.forall_mem_singleton.mpr hkind, hread span⟩

/-! ## Literals -/

theorem spellsOut_digits {digit : Char} {digits : List Char}
    (hdigits : ∀ character ∈ digit :: digits, character.isDigit = true) :
    SpellsOut Primary (digit :: digits) (.number () (.ofDigits (digit :: digits) false)) := by
  refine spellsOut_piece .int _ ?_ nofun fun _ _ => .number (.inl rfl) rfl
  intro extra hextra
  rw [read_of_isDigit (hdigits digit List.mem_cons_self), readNumber_of_digits hextra hdigits]

theorem spellsOut_name (first : Char) (others : List Char)
    (hread : Piece.read first = readName first) (hothers : others.all isNamePart = true)
    (hkeyword : Keyword.ofSpelling? (String.ofList (first :: others)) = none) :
    SpellsOut Primary (first :: others)
      (.identifier () (String.ofList (first :: others))) := by
  refine spellsOut_piece .identifier none ?_ nofun fun _ _ => .identifier rfl
  intro extra hextra
  rw [hread, readName_of_parts hextra first (List.all_eq_true.mp hothers) hkeyword]
  rfl

/-- A character that is written as itself does not end a string and escapes nothing. -/
theorem ne_of_escape_eq_self {character : Char} (h : Text.escape character = [character]) :
    character ≠ '"' ∧ character ≠ '\\' := by
  constructor
  · rintro rfl
    exact absurd h (by decide)
  · rintro rfl
    exact absurd h (by decide)

/-- What a readable character is escaped by is read as that character. -/
theorem unescape_of_escape {character short : Char} (h : Text.escape character = ['\\', short])
    (hshort : short ∈ ['"', '\\', 'n', 'r', 't']) : unescape short = character := by
  rw [Text.escape] at h
  split at h
  · next short' hescape =>
    cases h
    rw [Text.shortEscape?.eq_def] at hescape
    split at hescape <;> cases hescape
    case h_6 => exact absurd hshort (by decide)
    all_goals rfl
  · split at h
    · cases h
    · simp [Text.codeEscape] at h

/-- A readable character is escaped as it may be written in a string. -/
theorem writes_escape {character : Char} (h : Text.IsReadable character) :
    Writes character (Text.escape character) := by
  obtain hself | ⟨short, hshort, hescape⟩ := h
  · rw [hself]
    exact .raw (ne_of_escape_eq_self hself)
  · rw [hescape, ← unescape_of_escape hescape hshort]
    exact writes_unescape short

theorem writesEach_escape {characters : List Char}
    (h : ∀ character ∈ characters, Text.IsReadable character) :
    WritesEach characters (characters.flatMap Text.escape) := by
  induction characters with
  | nil => exact .nil
  | cons character characters ih =>
      obtain ⟨hfirst, hothers⟩ := List.forall_mem_cons.mp h
      exact .cons (writes_escape hfirst) (ih hothers)

theorem spellsOut_quote {text : String}
    (h : ∀ character ∈ text.toList, Text.IsReadable character) :
    SpellsOut Primary (Text.quote text).toList (.string () text) := by
  rw [Text.quote, String.toList_ofList, List.cons_append]
  refine spellsOut_piece .string (some (.string text)) ?_ nofun fun _ _ => .string rfl rfl
  intro extra _
  have hread (after : List Char) : Piece.read '"' after = readString after := rfl
  rw [hread, readString, List.append_assoc, List.singleton_append,
    stringBody?_writesEach (writesEach_escape h), List.length_append]
  simp

/-! ## Values -/

/-- An operand with signs is an expression. -/
theorem expression_of_signed {tokens rest : List Token} {tree : Tree Unit}
    (h : Prefixed UnaryOperator.ofSignKind? Operand tokens rest tree) :
    Expression .enclosed tokens rest tree := by
  have hproduct : Product tokens rest tree := .intro (.intro h .none)
  have hsum : Sum tokens rest tree := .intro (.intro hproduct .none)
  have hcomparison : Comparison tokens rest tree := .intro (.none (.intro hsum .none))
  exact .operation (.intro (.intro hcomparison .none)) trivial

theorem expression_of_primary {tokens rest : List Token} {tree : Tree Unit}
    (h : Primary tokens rest tree) : Expression .enclosed tokens rest tree :=
  expression_of_signed (.none (.intro h .none))

/-- A minus in front of a number. -/
theorem spellsOut_negative {digit : Char} {digits : List Char}
    (hdigits : ∀ character ∈ digit :: digits, character.isDigit = true) :
    SpellsOut (Expression .enclosed) ('-' :: digit :: digits)
      (.unary () .negate (.number () (.ofDigits (digit :: digits) false))) := by
  intro source position extra tokens hextra hscan
  obtain ⟨body, hbody, hkinds, hread⟩ :=
    spellsOut_digits hdigits source (position.advance '-') hextra hscan
  obtain ⟨minus, hminus, hwhole⟩ := scanFrom_sign .minus rfl hbody
  refine ⟨minus :: body, hwhole, List.forall_mem_cons.mpr ⟨?_, hkinds⟩, fun rest => ?_⟩
  · exact hminus ▸ nofun
  · exact expression_of_signed
      (.more (by rw [hminus]; rfl) (.none (.intro (hread rest) .none)))

/-- Things with a comma and a space between one and the next. -/
theorem spellsOut_items {items : List Value} {text : Value → List Char}
    {tree : Value → Tree Unit} (hitems : items ≠ [])
    (h : ∀ item ∈ items, SpellsOut (Expression .enclosed) (text item) (tree item)) :
    SpellsOut (CommaSeparated (Spaced (Expression .enclosed)))
      ([',', ' '].intercalate (items.map text)) (items.map tree) := by
  induction items with
  | nil => exact (hitems rfl).elim
  | cons item items ih =>
      obtain ⟨hitem, hothers⟩ := List.forall_mem_cons.mp h
      cases items with
      | nil =>
          rw [List.map_singleton, List.map_singleton, List.intercalate_singleton]
          exact hitem.imp fun hread => .one (.intro .none hread .none)
      | cons next items =>
          intro source position extra tokens hextra hscan
          rw [List.map_cons, List.map_cons, List.intercalate_cons_cons, List.append_assoc,
            ← List.map_cons] at hscan ⊢
          rw [Position.advanceOver_append, Position.advanceOver_append] at hscan
          obtain ⟨others, hothers, hkinds', hread'⟩ :=
            ih (List.cons_ne_nil _ _) hothers source _ hextra hscan
          rw [Position.advanceOver_cons, Position.advanceOver_cons, Position.advanceOver_nil,
            ← scanFrom_space] at hothers
          obtain ⟨comma, hkind, hcomma⟩ := scanFrom_sign .comma rfl hothers
          obtain ⟨body, hbody, hkinds, hread⟩ := hitem source position (.comma _) hcomma
          refine ⟨body ++ comma :: others, ?_, ?_, fun rest => ?_⟩
          · rw [List.append_assoc, List.append_assoc]
            exact hbody
          · refine List.forall_mem_append.mpr ⟨hkinds, List.forall_mem_cons.mpr ⟨?_, hkinds'⟩⟩
            exact hkind ▸ nofun
          · rw [List.append_assoc]
            exact .more (.intro .none (hread _) .none) hkind (hread' rest)

/-- Things in braces. -/
theorem spellsOut_list {items : List Value} {text : Value → List Char}
    {tree : Value → Tree Unit}
    (h : ∀ item ∈ items, SpellsOut (Expression .enclosed) (text item) (tree item)) :
    SpellsOut Primary ('{' :: ([',', ' '].intercalate (items.map text) ++ ['}']))
      (.list () (items.map tree)) := by
  intro source position extra tokens hextra hscan
  rw [Position.advanceOver_cons, Position.advanceOver_append, Position.advanceOver_cons,
    Position.advanceOver_nil] at hscan
  obtain ⟨closing, hclosing, hend⟩ := scanFrom_sign .rightBrace rfl hscan
  have hitems : ∃ body, scanFrom source (position.advance '{')
        ([',', ' '].intercalate (items.map text) ++ '}' :: extra) =
          .ok (body ++ closing :: tokens) ∧
      (∀ token ∈ body, token.kind ≠ .endOfInput) ∧
      ∀ rest, Items (Expression .enclosed) (body ++ rest) rest (items.map tree) := by
    by_cases hitems : items = []
    · subst hitems
      exact ⟨[], hend, List.forall_mem_nil _, fun rest => .none .none⟩
    · obtain ⟨body, hbody, hkinds, hread⟩ :=
        spellsOut_items hitems h source (position.advance '{') (.brace _) hend
      exact ⟨body, hbody, hkinds, fun rest => .some (hread rest)⟩
  obtain ⟨body, hbody, hkinds, hread⟩ := hitems
  obtain ⟨opening, hopening, hwhole⟩ := scanFrom_sign .leftBrace rfl hbody
  refine ⟨opening :: (body ++ [closing]), ?_, ?_, fun rest => ?_⟩
  · rw [List.cons_append, List.append_assoc, List.cons_append, List.nil_append, List.cons_append,
      List.append_assoc]
    exact hwhole
  · refine List.forall_mem_cons.mpr ⟨hopening ▸ nofun, List.forall_mem_append.mpr ⟨hkinds, ?_⟩⟩
    exact List.forall_mem_singleton.mpr (hclosing ▸ nofun)
  · rw [List.cons_append, List.append_assoc]
    exact .list hopening (hread _) hclosing

end Grammar

end Script
