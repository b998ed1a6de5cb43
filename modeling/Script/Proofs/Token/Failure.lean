/-
# Where a source cannot be read

Reading fails at the first place at which no piece begins, and the text in front of that place
can be read by itself: the pieces there have an end, and none of them would go on with the
character at which the reading fails. An exclamation mark without an equals sign, a string or
a comment without an end and a character with which nothing begins are the only such places.
That numbers with a point have to denote a double is checked as well, but they always do.
-/

import Mathlib.Tactic.FinCases
import Script.Proofs.Token.Layout

namespace Script.Token

variable {source : Source} {position : Position} {text front bad extra after : List Char}
  {first character : Char} {problem : Problem} {error : LexError}

/-! ## Texts without an end -/

/-- A comment has no end if there is no closing in the text. -/
theorem commentLength?_eq_none_iff :
    commentLength? text = none ↔ ¬ ['*', '/'] <:+: text := by
  induction text using commentLength?.induct with
  | case1 => simp [commentLength?]
  | case2 rest =>
      have hclosed : ['*', '/'] <:+: '*' :: '/' :: rest := ⟨[], rest, rfl⟩
      simp [commentLength?, hclosed]
  | case3 first rest hopen ih =>
      have hnot : ¬ ['*', '/'] <+: first :: rest := by
        rintro ⟨others, hothers⟩
        cases hothers
        exact hopen others rfl rfl
      rw [commentLength?.eq_3 _ _ hopen, Option.map_eq_none_iff, ih, List.infix_cons_iff, not_or]
      exact ⟨fun hrest => ⟨hnot, hrest⟩, And.right⟩

/-- A string has no end if no text as it may be written in a string is followed by a quote. -/
theorem stringBody?_eq_none_iff :
    stringBody? text = none ↔
      ¬∃ value inner rest, WritesEach value inner ∧ text = inner ++ '"' :: rest := by
  constructor
  · rintro hnone ⟨value, inner, rest, hwrites, rfl⟩
    rw [stringBody?_writesEach hwrites] at hnone
    cases hnone
  · intro hopen
    by_contra hsome
    obtain ⟨body, hbody⟩ := Option.ne_none_iff_exists'.mp hsome
    obtain ⟨inner, rest, hwrites, htext, -⟩ := exists_of_stringBody? hbody
    exact hopen ⟨body.1, inner, rest, hwrites, htext⟩

/-! ## Places at which nothing begins -/

/-- A token, a blank or a comment begins with a character. -/
def Begins (character : Char) : Prop :=
  ∃ rest, Gap (character :: rest) ∨
    ∃ kind literal, IsLexeme kind literal (character :: rest)

/-- Why a text cannot be read on at an offset, and the category of that failure. -/
inductive FailsAt (text : List Char) (offset : Nat) : Problem → Category → Prop
  | bang (h : text[offset]? = some '!') (hnext : text[offset + 1]? ≠ some '=') :
      FailsAt text offset .bangWithoutEqual .expectedCharacter
  | string (h : text[offset]? = some '"')
      (hopen : ¬∃ value inner rest, WritesEach value inner ∧
        text.drop (offset + 1) = inner ++ '"' :: rest) :
      FailsAt text offset .unterminatedString .unterminatedLiteral
  | comment (h : text[offset]? = some '/') (hnext : text[offset + 1]? = some '*')
      (hopen : ¬ ['*', '/'] <:+: text.drop (offset + 2)) :
      FailsAt text offset .unterminatedComment .unterminatedLiteral
  | character {character : Char} (h : text[offset]? = some character)
      (hbegins : ¬Begins character) :
      FailsAt text offset (.illegalCharacter character) .illegalCharacter

/-- Nothing begins with a character that is a problem in front of each text. -/
theorem not_begins (h : ∀ after, Piece.read first after = ⟨.problem problem, 0⟩) :
    ¬Begins first := by
  have hnot (after : List Char) (hread : (Piece.read first after).content ≠ .problem problem) :
      False := hread (by rw [h])
  rintro ⟨rest, hgap | ⟨kind, literal, begins, behind, heq, hread⟩⟩
  · cases hgap with
    | blank hblank => obtain rfl | rfl | rfl := hblank <;> exact hnot [] nofun
    | comment => exact hnot [] nofun
  · cases heq
    rw [h] at hread
    cases hread

theorem begins_of_token {kind : Kind} {literal : Option Literal}
    (h : (Piece.read first after).content = .token kind literal) : Begins first :=
  ⟨_, .inr ⟨kind, literal, isLexeme_taken h⟩⟩

/-- A character with which nothing begins is a problem in front of each text. -/
theorem read_of_not_begins (h : ¬Begins first) (after : List Char) :
    Piece.read first after = ⟨.problem (.illegalCharacter first), 0⟩ := by
  have hnot (after : List Char) {kind : Kind} {literal : Option Literal}
      (hread : (Piece.read first after).content = .token kind literal) : False :=
    h (begins_of_token hread)
  generalize hreader : Piece.read first = reader at *
  cases hreader ▸ Piece.reader_read first with
  | sign => exact (hnot [] rfl).elim
  | relation => exact (hnot [] rfl).elim
  | blank hblank => exact (h ⟨[], .inl (.blank hblank .nil)⟩).elim
  | bang => exact (hnot ['='] rfl).elim
  | slash => exact (hnot [] rfl).elim
  | point => exact (hnot [] rfl).elim
  | string => exact (hnot ['"'] rfl).elim
  | number => exact (hnot [] (by rw [readNumber_eq])).elim
  | name => exact (hnot [] rfl).elim
  | illegal => rfl

/-- The characters other than letters and digits with which something begins. -/
def signs : List Char :=
  ['(', ')', '{', '}', '[', ']', ',', ';', '+', '-', '*', '/', '%', '=', '<', '>', '!', '.',
    '"', '_', '$', ' ', '\t', '\r', '\n']

/-- The reader of any other character, whatever stands behind it. -/
theorem read_of_not_mem_signs (hsigns : first ∉ signs) (halphanum : first.isAlphanum = false)
    (after : List Char) : Piece.read first after = ⟨.problem (.illegalCharacter first), 0⟩ := by
  have hpunctuation : punctuation? first = none := by
    unfold punctuation?
    split
    case h_14 => rfl
    all_goals exact absurd (by decide) hsigns
  have hrelation : relation? first = none := by
    unfold relation?
    split
    case h_4 => rfl
    all_goals exact absurd (by decide) hsigns
  rw [Char.isAlphanum, Bool.or_eq_false_iff] at halphanum
  simp only [signs, List.mem_cons, List.not_mem_nil, or_false, not_or] at hsigns
  simp [Piece.read, hpunctuation, hrelation, hsigns, halphanum, isNameStart]

/-- Something begins with the letters and digits of ASCII and with the signs, and with no other
character. -/
theorem begins_iff : Begins first ↔ first.isAlphanum = true ∨ first ∈ signs := by
  constructor
  · intro hbegins
    by_contra hother
    obtain ⟨halphanum, hsigns⟩ := not_or.mp hother
    rw [Bool.not_eq_true] at halphanum
    exact not_begins (read_of_not_mem_signs hsigns halphanum) hbegins
  · rintro (halphanum | hsign)
    · rw [Char.isAlphanum, Bool.or_eq_true] at halphanum
      obtain halpha | hdigit := halphanum
      · have hname : isNameStart first = true := by rw [isNameStart, halpha]; rfl
        exact begins_of_token (by rw [read_of_isNameStart hname []]; rfl)
      · exact begins_of_token (by rw [read_of_isDigit hdigit [], readNumber_eq])
    · by_contra hnot
      have hread := read_of_not_begins hnot []
      fin_cases hsign <;> cases hread
theorem failsAt_of_read (front : List Char)
    (h : (Piece.read first after).content = .problem problem) :
    FailsAt (front ++ first :: after) front.length problem problem.category := by
  have hfirst : (front ++ first :: after)[front.length]? = some first := by simp
  have hnext : (front ++ first :: after)[front.length + 1]? = after.head? := by
    rw [List.getElem?_append_right (Nat.le_succ _), Nat.succ_sub (Nat.le_refl _), Nat.sub_self,
      List.getElem?_cons_succ, List.head?_eq_getElem?]
  have hbehind (count : Nat) :
      (front ++ first :: after).drop (front.length + (count + 1)) = after.drop count := by
    rw [List.drop_length_add_append, List.drop_succ_cons]
  generalize hreader : Piece.read first = reader at h
  cases hreader ▸ Piece.reader_read first with
  | sign => cases h
  | relation =>
      dsimp only at h
      split at h <;> cases h
  | blank => cases h
  | bang hbang =>
      subst hbang
      dsimp only at h
      split at h
      · cases h
      · next hstarts =>
        cases h
        refine .bang hfirst (hnext.trans_ne fun heq => hstarts ?_)
        rw [startsWith, heq]
        rfl
  | slash hslash =>
      subst hslash
      dsimp only at h
      split at h
      · next hstarts =>
        have hstar : after.head? = some '*' := of_decide_eq_true hstarts
        rw [readComment] at h
        split at h
        · cases h
        · next hopen =>
          cases h
          refine .comment hfirst (hnext.trans hstar) ?_
          rwa [← commentLength?_eq_none_iff, hbehind 1]
      · cases h
  | point =>
      dsimp only at h
      split at h
      · rw [readNumber_eq] at h
        cases h
      · cases h
  | string hquote =>
      subst hquote
      rw [readString] at h
      split at h
      · cases h
      · next hopen =>
        cases h
        refine .string hfirst ?_
        rwa [← stringBody?_eq_none_iff, hbehind 0]
  | number =>
      rw [readNumber_eq] at h
      cases h
  | name => cases h
  | illegal =>
      cases h
      exact .character hfirst (not_begins fun after => congrFun hreader after)

/-- No piece that has an end goes on with a character at which the reading fails. -/
theorem interrupts_of_problem (h : (Piece.read first after).content = .problem problem) :
    Interrupts (first :: after) := by
  rintro _ ⟨⟩
  by_contra hgoes
  have hstart (hstart : isNameStart first = true) : False := by
    rw [read_of_isNameStart hstart] at h
    cases h
  have hdigit (hdigit : first.isDigit = true) : False := by
    rw [read_of_isDigit hdigit, readNumber_eq] at h
    cases h
  simp only [goesOn, isNamePart, Char.isAlphanum, Bool.not_eq_false, Bool.or_eq_true,
    decide_eq_true_iff] at hgoes
  obtain (((hname | (halpha | hnumber) | rfl) | rfl) | rfl) | rfl := hgoes
  · exact hstart hname
  · exact hstart (by rw [isNameStart, halpha]; rfl)
  · exact hdigit hnumber
  · exact hstart rfl
  · have hpoint : Piece.read '.' after =
        if after.head?.any Char.isDigit then readNumber '.' after else .plain .dot 0 := rfl
    rw [hpoint] at h
    split at h
    · rw [readNumber_eq] at h
      cases h
    · cases h
  · have hequal : Piece.read '=' after =
        if startsWith after '=' then .plain .equalEqual 1 else .plain .equal 0 := rfl
    rw [hequal] at h
    split at h <;> cases h
  · cases h

/-! ## Texts that are cut off -/

/-- A piece that depends on its own characters only is the same piece if the text is cut off
somewhere behind it. -/
theorem Piece.eq_of_isLocal {reader : List Char → Piece}
    (hlocal : IsLocal reader (after ++ extra))
    (h : ∀ problem, (reader (after ++ extra)).content ≠ .problem problem)
    (hle : (reader (after ++ extra)).length ≤ after.length)
    (hsettles : ∀ length, length = (reader (after ++ extra)).length →
      Settles (reader (after.take length)) (reader (after.take length ++ after.drop length))
        (after.take length).length) :
    reader after = reader (after ++ extra) := by
  have hown := hlocal h
  rw [List.take_append_of_le_length hle] at hown
  have hsame := (hsettles _ rfl (by rwa [hown])).same
  rwa [List.take_append_drop, hown] at hsame

/-- A piece with an end is the same piece if the text is cut off somewhere behind it, where it
would not go on. -/
theorem Piece.read_cut (hextra : Interrupts extra)
    (h : ∀ problem, (read first (after ++ extra)).content ≠ .problem problem)
    (hle : (read first (after ++ extra)).length ≤ after.length) :
    read first after = read first (after ++ extra) := by
  suffices hread : ∀ problem, (read first after).content ≠ .problem problem from
    (settles_read hextra first after hread).same.symm
  intro problem hproblem
  generalize hreader : read first = reader at h hle hproblem
  cases hreader ▸ reader_read first with
  | sign => cases hproblem
  | relation =>
      dsimp only at hproblem
      split at hproblem <;> cases hproblem
  | blank => cases hproblem
  | bang =>
      dsimp only at h hproblem
      rw [hextra.startsWith_append rfl] at h
      exact h problem hproblem
  | slash =>
      dsimp only at h hle hproblem
      rw [hextra.startsWith_append rfl] at h hle
      split at hproblem
      · next hstarts =>
        rw [if_pos hstarts] at h hle
        have hsame := eq_of_isLocal (isLocal_readComment _) h hle fun length hlength =>
          settles_readComment (by
            rw [List.length_take_of_le (hlength ▸ hle), hlength]
            refine length_readComment_pos ?_
            rwa [hextra.startsWith_append rfl]) _
        exact h problem (hsame ▸ hproblem)
      · cases hproblem
  | point =>
      dsimp only at hproblem
      split at hproblem
      · rw [readNumber_eq] at hproblem
        cases hproblem
      · cases hproblem
  | string =>
      have hsame := eq_of_isLocal (isLocal_readString _) h hle fun length _ =>
        settles_readString _ _
      exact h problem (hsame ▸ hproblem)
  | number =>
      rw [readNumber_eq] at hproblem
      cases hproblem
  | name => cases hproblem
  | illegal => exact h problem hproblem

/-- The text behind a first piece with an end can be cut off where that piece would not go
on, and the first piece remains. -/
theorem exists_cut (h : ∀ problem, (Piece.read first after).content ≠ .problem problem)
    (huntaken : untaken first after = front ++ bad) (hbad : Interrupts bad) :
    ∃ cut, taken first after ++ front = first :: cut ∧
      Piece.read first cut = Piece.read first after ∧ taken first cut = taken first after ∧
      untaken first cut = front := by
  have hle : (Piece.read first after).length ≤ after.length :=
    (Piece.settles_read .nil first after h).length_le
  have hlength := List.length_take_of_le hle
  have hafter : after.take (Piece.read first after).length ++ front ++ bad = after := by
    rw [List.append_assoc, ← huntaken, untaken, List.take_append_drop]
  have hsame : Piece.read first (after.take (Piece.read first after).length ++ front) =
      Piece.read first after := by
    have hcut : Piece.read first (after.take (Piece.read first after).length ++ front) = _ :=
      Piece.read_cut hbad (by rwa [hafter]) (by
        rw [hafter, List.length_append, hlength]
        exact Nat.le_add_right _ _)
    rwa [hafter] at hcut
  refine ⟨after.take (Piece.read first after).length ++ front, rfl, hsame, ?_, ?_⟩
  · rw [taken, hsame, List.take_append_of_le_length (Nat.le_of_eq hlength.symm),
      List.take_take, Nat.min_self]
    rfl
  · rw [untaken, hsame, List.drop_append_of_le_length (Nat.le_of_eq hlength.symm),
      List.drop_take_self, List.nil_append]

/-! ## The first failure -/

/-- Behind a first piece with an end the reading goes on, and all that the piece adds are
tokens in front. -/
theorem scanFrom_of_ended (h : ∀ problem, (Piece.read first after).content ≠ .problem problem)
    (source : Source) (position : Position) :
    ∃ own, scanFrom source position (first :: after) =
      (own ++ ·) <$>
        scanFrom source (position.advanceOver (taken first after)) (untaken first after) := by
  cases hcontent : (Piece.read first after).content with
  | problem problem => exact (h problem hcontent).elim
  | gap => exact ⟨[], (scanFrom_of_gap hcontent).trans (id_map _).symm⟩
  | token kind literal => exact ⟨[_], scanFrom_of_token hcontent⟩

/-- Where a text cannot be read, the failure is that of its first piece that is a problem, and
what stands in front of that piece can be read by itself. -/
theorem exists_front (h : scanFrom source position text = .error error) :
    ∃ front first after, text = front ++ first :: after ∧
      (Piece.read first after).content = .problem error.problem ∧
      error.span.start = position.advanceOver front ∧
      ∀ other, ∃ tokens, scanFrom other position front = .ok tokens := by
  induction hsize : text.length using Nat.strongRecOn generalizing position text with
  | ind size ih =>
    subst hsize
    cases text with
    | nil =>
        rw [scanFrom] at h
        cases h
    | cons first after =>
        by_cases hended : ∀ problem, (Piece.read first after).content ≠ .problem problem
        case neg =>
          obtain ⟨problem, hcontent⟩ := not_forall_not.mp hended
          rw [scanFrom] at h
          simp only [hcontent] at h
          cases h
          refine ⟨[], first, after, rfl, hcontent, rfl, fun other => ?_⟩
          exact ⟨[atEnd ⟨other, position, position⟩], by rw [scanFrom]⟩
        case pos =>
          obtain ⟨own, hown⟩ := scanFrom_of_ended hended source position
          rw [hown] at h
          cases hothers : scanFrom source (position.advanceOver (taken first after))
            (untaken first after) with
          | ok others =>
              rw [hothers] at h
              cases h
          | error later =>
              rw [hothers] at h
              cases h
              obtain ⟨front, bad, behind, huntaken, hread, hstart, hfront⟩ :=
                ih _ (length_untaken_lt first after) hothers rfl
              obtain ⟨cut, hcut, hsame, htaken, hrest⟩ :=
                exists_cut hended huntaken (interrupts_of_problem hread)
              refine ⟨taken first after ++ front, bad, behind, ?_, hread, ?_, fun other => ?_⟩
              · rw [List.append_assoc, ← huntaken, taken_append_untaken]
              · rw [hstart, Position.advanceOver_append]
              · obtain ⟨tokens, htokens⟩ := hfront other
                obtain ⟨kept, hkept⟩ := scanFrom_of_ended (by rwa [hsame]) other position
                rw [hcut, hkept, htaken, hrest, htokens]
                exact ⟨kept ++ tokens, rfl⟩

/-- How reading a source fails: at the first place at which no piece begins, and only for what
stands there. -/
structure FailsFirst (source : Source) (error : LexError) : Prop where
  /-- The failure stands where a reader counts the characters in front of it to. -/
  placed : error.span.start =
    Position.start.advanceOver (source.text.toList.take error.span.start.offset)
  /-- The text in front of the failure can be read by itself. -/
  front : ∀ file, ∃ tokens,
    scan ⟨String.ofList (source.text.toList.take error.span.start.offset), file⟩ = .ok tokens
  /-- Nothing begins where the failure stands. -/
  reason : FailsAt source.text.toList error.span.start.offset error.problem error.problem.category
  /-- Numbers are never malformed. -/
  wellFormed : ∀ text, error.problem ≠ .malformedNumber text
  /-- An illegal character is neither a letter or digit of ASCII nor a sign. -/
  illegal : ∀ character, error.problem = .illegalCharacter character →
    character.isAlphanum = false ∧ character ∉ signs
  /-- An illegal character is found whatever stands behind it. -/
  again : error.problem.category = .illegalCharacter → ∀ other : Source,
    other.text.toList.take (error.span.start.offset + 1) =
      source.text.toList.take (error.span.start.offset + 1) →
    ∃ failure, scan other = .error failure ∧ failure.problem = error.problem ∧
      failure.span.start = error.span.start

/-- A text in which nothing begins behind another text that can be read. -/
theorem scan_append_illegal {tokens : List Token} {file : String}
    (hfront : scan ⟨String.ofList front, file⟩ = .ok tokens) (hbegins : ¬Begins character)
    (htext : source.text.toList = front ++ character :: after) :
    ∃ failure, scan source = .error failure ∧ failure.problem = .illegalCharacter character ∧
      failure.span.start = Position.start.advanceOver front := by
  have hread := read_of_not_begins hbegins after
  rw [scan, String.toList_ofList] at hfront
  obtain ⟨body, -, -, hreads⟩ := scanFrom_append hfront
  have hinterrupts : Interrupts (character :: after) :=
    interrupts_of_problem (by rw [hread])
  have hwhole := hreads source 0 0 hinterrupts
  rw [Position.behind_zero, Position.behind_zero, ← htext, scanFrom] at hwhole
  simp only [hread] at hwhole
  exact ⟨_, hwhole, rfl, rfl⟩

/-- A failure in the category of illegal characters is one because of a character with which
nothing begins. -/
theorem eq_illegal_of_failsAt
    (h : FailsAt (front ++ first :: after) front.length problem .illegalCharacter) :
    problem = .illegalCharacter first ∧ ¬Begins first := by
  cases h with
  | @character character hcharacter hbegins =>
      rw [List.getElem?_append_right (Nat.le_refl _), Nat.sub_self] at hcharacter
      cases hcharacter
      exact ⟨rfl, hbegins⟩

/-- A text that is the same up to a character and with it. -/
theorem eq_append_of_take_eq {other : List Char}
    (h : other.take (front.length + 1) = (front ++ first :: after).take (front.length + 1)) :
    other = front ++ first :: other.drop (front.length + 1) := by
  have hsame : other.take (front.length + 1) = front ++ [first] := by
    rw [h, List.take_length_add_append]
    rfl
  rw [← List.singleton_append, ← List.append_assoc, ← hsame, List.take_append_drop]

/-- Failures are reported at the first place at which nothing begins. What stands in front of
it can be read by itself, and there is an exclamation mark without an equals sign, a string or
a comment without an end, or a character with which nothing begins, which is no letter, digit or
sign, and then each source that goes as far fails in the same way. -/
theorem scan_fails_first (h : scan source = .error error) : FailsFirst source error := by
  obtain ⟨front, first, after, htext, hread, hstart, hfront⟩ := exists_front h
  have hoffset : error.span.start.offset = front.length := by
    rw [hstart, Position.offset_advanceOver_start]
  have htake : source.text.toList.take error.span.start.offset = front := by
    rw [htext, hoffset, List.take_left]
  have hreason := failsAt_of_read front hread
  have hscan (file : String) : ∃ tokens, scan ⟨String.ofList front, file⟩ = .ok tokens := by
    obtain ⟨tokens, htokens⟩ := hfront ⟨String.ofList front, file⟩
    exact ⟨tokens, by rw [scan, String.toList_ofList, htokens]⟩
  constructor
  case placed => rw [htake, hstart]
  case front =>
    rw [htake]
    exact hscan
  case reason => rwa [hoffset, htext]
  case wellFormed =>
    intro text hmalformed
    rw [hmalformed] at hreason
    cases hreason
  case illegal =>
    intro character hillegal
    rw [hillegal] at hreason
    obtain ⟨hcharacter, hbegins⟩ := eq_illegal_of_failsAt hreason
    cases hcharacter
    rw [begins_iff, not_or, Bool.not_eq_true] at hbegins
    exact hbegins
  case again =>
    intro hcategory other hother
    rw [hcategory] at hreason
    obtain ⟨hproblem, hbegins⟩ := eq_illegal_of_failsAt hreason
    rw [hoffset, htext] at hother
    obtain ⟨tokens, htokens⟩ := hscan source.file
    obtain ⟨failure, hfailure, hagain, hplace⟩ :=
      scan_append_illegal htokens hbegins (eq_append_of_take_eq hother)
    exact ⟨failure, hfailure, hagain.trans hproblem.symm, hplace.trans hstart.symm⟩

/-- A sign with which nothing begins behind a number with a point. -/
theorem scan_fails_first_of_sign :
    ∃ error, scan ⟨"x = 1.# \"a", "failure"⟩ = .error error ∧
      FailsFirst ⟨"x = 1.# \"a", "failure"⟩ error := by
  have hfails : (scan ⟨"x = 1.# \"a", "failure"⟩).isOk = false := by
    decide +kernel
  cases hscan : scan ⟨"x = 1.# \"a", "failure"⟩ with
  | ok tokens =>
      rw [hscan] at hfails
      cases hfails
  | error error => exact ⟨error, rfl, scan_fails_first hscan⟩

end Script.Token
