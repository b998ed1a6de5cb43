/-
# Points between numbers and names

A point behind digits and before a name selects a member: the digits are a number, the point
is a sign, and the name is an identifier. This holds for all names but those that begin with
the suffix of a long number. There the point and the letter are taken for the end of the
number, also where the name goes on behind the letter.
-/

import Script.Proofs.Token.Lexeme

namespace Script.Token

/-- An identifier: a letter, an underscore or a dollar sign, and behind it letters, digits
and underscores, which together are no keyword. -/
structure IsIdentifier (text : List Char) : Prop where
  begins : ∀ first ∈ text.head?, isNameStart first = true
  goesOn : ∀ character ∈ text.tail, isNamePart character = true
  ne_nil : text ≠ []
  ne_keyword : ∀ word : Keyword, word.spelling ≠ String.ofList text

/-- A number: digits, at least one. -/
structure AreDigits (text : List Char) : Prop where
  isDigit : ∀ character ∈ text, character.isDigit = true
  ne_nil : text ≠ []

/-- Digits, a point and a name are read as a number, a sign and an identifier. -/
def SelectsMember (digits name : List Char) (file : String) : Prop :=
  ∃ tokens, scan ⟨String.ofList (digits ++ '.' :: name), file⟩ = .ok tokens ∧
    tokens.map (fun token => (token.kind, token.lexeme)) =
      [(.int, String.ofList digits), (.dot, "."), (.identifier, String.ofList name),
        (.endOfInput, "")]

variable {digit first : Char} {digits others name : List Char} {text : String}

/-! ## Names -/

theorem isDigit_of_isNameStart (h : isNameStart first = true) : first.isDigit = false := by
  cases hdigit : first.isDigit with
  | false => rfl
  | true =>
      rw [isNameStart_of_isDigit hdigit] at h
      cases h

theorem ofSpelling?_eq_none (h : ∀ word : Keyword, word.spelling ≠ text) :
    Keyword.ofSpelling? text = none := by
  rw [Keyword.ofSpelling?, List.find?_eq_none]
  exact fun word _ hword => h word (of_decide_eq_true hword)

/-- An identifier at the end of a text is one token. -/
theorem IsIdentifier.scanFrom (h : IsIdentifier (first :: others)) (source : Source)
    (position : Position) :
    ∃ span stop, scanFrom source position (first :: others) =
      .ok [⟨.identifier, String.ofList (first :: others), none, span⟩, atEnd stop] := by
  have hrun : others.takeWhile isNamePart = others := List.takeWhile_eq_self_iff.mpr h.goesOn
  have hread : Piece.read first (others ++ []) = ⟨.token .identifier none, others.length⟩ := by
    rw [List.append_nil, read_of_isNameStart (h.begins first rfl), readName, hrun,
      ofSpelling?_eq_none h.ne_keyword]
    rfl
  let stop := position.advanceOver (first :: others)
  have hend : Token.scanFrom source stop [] = .ok [atEnd ⟨source, stop, stop⟩] := by
    rw [Token.scanFrom]
  obtain ⟨span, hspan⟩ := scanFrom_piece hread hend
  rw [List.append_nil] at hspan
  exact ⟨span, _, hspan⟩

/-! ## Points -/

/-- A point before a name is a sign. -/
theorem read_point (hfirst : first.isDigit = false) :
    Piece.read '.' (first :: others) = .plain .dot 0 := by
  have hread : Piece.read '.' (first :: others) =
      if first.isDigit then readNumber '.' (first :: others) else .plain .dot 0 := rfl
  rw [hread, if_neg (by rw [hfirst]; exact Bool.false_ne_true)]

/-- A point before a name belongs to the digits in front of it if the name begins with a
suffix, and then there are no digits behind the point. -/
theorem fraction?_point (hfirst : isNameStart first = true) :
    fraction? ('.' :: first :: others) = if isLongSuffix first then some [] else none := by
  have hrun : (first :: others).takeWhile Char.isDigit = [] :=
    List.takeWhile_cons_of_neg (by rw [isDigit_of_isNameStart hfirst]; exact Bool.false_ne_true)
  rw [fraction?, pointBelongs, hfirst, Bool.not_true, Bool.false_or, hrun]

/-- Digits and a point are an integer and a sign where the name does not begin with a
suffix. -/
theorem readNumber_of_member (hdigits : AreDigits (digit :: digits))
    (hfirst : isNameStart first = true) (hsuffix : isLongSuffix first = false) :
    readNumber digit (digits ++ '.' :: first :: others) =
      ⟨.token .int (some (.number (.ofDigits (digit :: digits) false))), digits.length⟩ := by
  have hfraction : fraction? ('.' :: first :: others) = none := by
    rw [fraction?_point hfirst, hsuffix]
    rfl
  have hpoint : ∀ character ∈ ('.' :: first :: others).head?, character.isDigit = false :=
    fun _ hcharacter => by cases hcharacter; rfl
  rw [readNumber_eq, ← List.cons_append,
    Numeral.read_append_of_whole hdigits.isDigit hpoint hfraction]
  rfl

/-- Digits and a point are a double where the name begins with a suffix, and the suffix
belongs to it. -/
theorem readNumber_of_suffix (hdigits : AreDigits (digit :: digits))
    (hfirst : isNameStart first = true) (hsuffix : isLongSuffix first = true) :
    readNumber digit (digits ++ '.' :: first :: others) =
      let value := Numeral.value ⟨digit :: digits, some [], true⟩
      ⟨.token .double (some (.number value)), digits.length + 2⟩ := by
  have hfraction : fraction? ('.' :: ([] ++ first :: others)) = some [] := by
    rw [List.nil_append, fraction?_point hfirst, if_pos hsuffix]
  have hread := Numeral.read_append_of_fraction hdigits.isDigit hfraction
  rw [startsWithSuffix, hsuffix, List.nil_append] at hread
  rw [readNumber_eq, ← List.cons_append, hread]
  rfl

/-! ## Sources -/

/-- Where the name does not begin with a suffix, the point selects a member. -/
theorem selectsMember_of_not_suffix (hdigits : AreDigits (digit :: digits))
    (hname : IsIdentifier (first :: others)) (hsuffix : isLongSuffix first = false)
    (file : String) : SelectsMember (digit :: digits) (first :: others) file := by
  have hfirst := hname.begins first rfl
  have hnumber : Piece.read digit (digits ++ '.' :: first :: others) = _ :=
    (read_of_isDigit (hdigits.isDigit digit List.mem_cons_self) _).trans
      (readNumber_of_member hdigits hfirst hsuffix)
  have hpoint : Piece.read '.' ([] ++ first :: others) =
      ⟨.token .dot none, ([] : List Char).length⟩ := read_point (isDigit_of_isNameStart hfirst)
  obtain ⟨_, _, hend⟩ := hname.scanFrom
    ⟨String.ofList (digit :: digits ++ '.' :: first :: others), file⟩
    ((Position.start.advanceOver (digit :: digits)).advanceOver ['.'])
  obtain ⟨_, hbehind⟩ := scanFrom_piece hpoint hend
  obtain ⟨_, hwhole⟩ := scanFrom_piece hnumber hbehind
  exact ⟨_, (congrArg _ String.toList_ofList).trans hwhole, rfl⟩

/-- Where the name begins with a suffix, the first token is a double with the point and the
suffix in it. -/
theorem exists_double_of_suffix {tokens : List Token} {file : String}
    (hdigits : AreDigits (digit :: digits)) (hfirst : isNameStart first = true)
    (hsuffix : isLongSuffix first = true)
    (h : scan ⟨String.ofList (digit :: digits ++ '.' :: first :: others), file⟩ = .ok tokens) :
    ∃ token rest, tokens = token :: rest ∧ token.kind = .double ∧
      token.lexeme = String.ofList (digit :: digits ++ ['.', first]) := by
  have hread : Piece.read digit (digits ++ ['.', first] ++ others) =
      ⟨.token .double (some (.number (Numeral.value ⟨digit :: digits, some [], true⟩))),
        (digits ++ ['.', first]).length⟩ := by
    rw [List.append_assoc, List.length_append,
      read_of_isDigit (hdigits.isDigit digit List.mem_cons_self)]
    exact readNumber_of_suffix hdigits hfirst hsuffix
  have hsplit : digit :: digits ++ '.' :: first :: others =
      digit :: (digits ++ ['.', first] ++ others) := by
    rw [List.append_assoc]
    rfl
  rw [scan, String.toList_ofList, hsplit, scanFrom_of_read hread] at h
  cases hrest : scanFrom ⟨String.ofList (digit :: (digits ++ ['.', first] ++ others)), file⟩
      (Position.start.advanceOver (digit :: (digits ++ ['.', first]))) others with
  | error error =>
      rw [hrest] at h
      cases h
  | ok rest =>
      rw [hrest] at h
      cases h
      exact ⟨_, rest, rfl, rfl, rfl⟩

theorem not_selectsMember_of_suffix (hdigits : AreDigits (digit :: digits))
    (hfirst : isNameStart first = true) (hsuffix : isLongSuffix first = true) (file : String) :
    ¬SelectsMember (digit :: digits) (first :: others) file := by
  rintro ⟨tokens, hscan, htokens⟩
  obtain ⟨token, rest, rfl, hkind, -⟩ := exists_double_of_suffix hdigits hfirst hsuffix hscan
  have hint : token.kind = .int := congrArg Prod.fst (List.cons.inj htokens).1
  rw [hkind] at hint
  cases hint

/-- Between digits and an identifier a point selects a member if and only if the identifier
does not begin with the suffix of a long number. -/
theorem selectsMember_iff (hdigits : AreDigits digits) (hname : IsIdentifier name)
    (file : String) : SelectsMember digits name file ↔ startsWithSuffix name = false := by
  obtain ⟨digit, digits, rfl⟩ := List.exists_cons_of_ne_nil hdigits.ne_nil
  obtain ⟨first, others, rfl⟩ := List.exists_cons_of_ne_nil hname.ne_nil
  constructor
  · intro hselects
    by_contra hsuffix
    rw [Bool.not_eq_false] at hsuffix
    exact not_selectsMember_of_suffix hdigits (hname.begins first rfl) hsuffix file hselects
  · exact fun hsuffix => selectsMember_of_not_suffix hdigits hname hsuffix file

/-- A name with all kinds of characters behind two digits. -/
theorem selectsMember_iff_of_dollar :
    AreDigits ['4', '2'] ∧ IsIdentifier ['$', 'L', '_', '1'] ∧
      SelectsMember ['4', '2'] ['$', 'L', '_', '1'] "member" := by
  have hdigits : AreDigits ['4', '2'] := ⟨List.all_eq_true.mp rfl, List.cons_ne_nil _ _⟩
  have hname : IsIdentifier ['$', 'L', '_', '1'] :=
    ⟨by rintro _ ⟨⟩; rfl, List.all_eq_true.mp rfl, List.cons_ne_nil _ _,
      fun word => by cases word <;> decide⟩
  exact ⟨hdigits, hname, (selectsMember_iff hdigits hname "member").mpr rfl⟩

/-- A point does not select a member between digits and every identifier longer than a
suffix: it is a part of the number before a name that goes on behind a suffix. -/
theorem not_forall_selectsMember :
    ¬∀ digits name : List Char, AreDigits digits → IsIdentifier name →
      name ≠ ['L'] → name ≠ ['l'] → ∀ file, SelectsMember digits name file := by
  have hdigits : AreDigits ['1'] := ⟨List.all_eq_true.mp rfl, List.cons_ne_nil _ _⟩
  have hname : IsIdentifier ['l', 'e', 'n', 'g', 't', 'h'] :=
    ⟨by rintro _ ⟨⟩; rfl, List.all_eq_true.mp rfl, List.cons_ne_nil _ _,
      fun word => by cases word <;> decide⟩
  intro hall
  exact not_selectsMember_of_suffix hdigits rfl rfl "member"
    (hall _ _ hdigits hname (by decide) (by decide) "member")

end Script.Token
