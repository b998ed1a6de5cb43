/-
# Pieces before an interruption

No piece of a text looks past a line feed or a space that stands behind it, unless it has
no end: a comment or a string that has one, a number, a name or a sign is the same piece
whether the text ends there or goes on in a new line or behind a space. The same holds of
any other character with which no number, name or sign could go on.
-/

import Mathlib.Data.List.TakeWhile
import Script.Proofs.Token.Writing

namespace Script.Token

variable {text extra : List Char}

/-- Whether a piece may go on with a character, or look at it. -/
def goesOn (character : Char) : Bool :=
  isNameStart character || isNamePart character || character = '.' || character = '=' ||
    character = '*'

/-- A text that begins with a character with which no piece goes on, if it is not empty. -/
def Interrupts (text : List Char) : Prop := ∀ character ∈ text.head?, goesOn character = false

theorem goesOn_of_isNameStart {character : Char} (h : isNameStart character = true) :
    goesOn character = true := by
  rw [goesOn, h]
  rfl

theorem goesOn_of_isNamePart {character : Char} (h : isNamePart character = true) :
    goesOn character = true := by
  rw [goesOn, h, Bool.or_true]
  rfl

theorem goesOn_of_isDigit {character : Char} (h : character.isDigit = true) :
    goesOn character = true := by
  refine goesOn_of_isNamePart ?_
  rw [isNamePart, Char.isAlphanum, h, Bool.or_true]
  rfl

theorem goesOn_of_isLongSuffix {character : Char} (h : isLongSuffix character = true) :
    goesOn character = true := by
  rw [isLongSuffix, Bool.or_eq_true, decide_eq_true_iff, decide_eq_true_iff] at h
  obtain rfl | rfl := h
  · decide
  · decide

namespace Interrupts

theorem nil : Interrupts [] := nofun

theorem space (text : List Char) : Interrupts (' ' :: text) := by
  rintro character ⟨⟩
  decide

theorem lineFeed (text : List Char) : Interrupts ('\n' :: text) := by
  rintro character ⟨⟩
  decide

/-- What goes on does not begin a text that interrupts. -/
theorem not_head? (h : Interrupts extra) {p : Char → Bool}
    (hp : ∀ character, p character = true → goesOn character = true) :
    ∀ character ∈ extra.head?, p character = false := by
  intro character hhead
  by_contra hholds
  have hgoes := hp character (Bool.not_eq_false _ ▸ hholds)
  rw [h character hhead] at hgoes
  cases hgoes

theorem takeWhile_append (h : Interrupts extra) {p : Char → Bool}
    (hp : ∀ character, p character = true → goesOn character = true) (text : List Char) :
    (text ++ extra).takeWhile p = text.takeWhile p := by
  induction text with
  | nil =>
      cases extra with
      | nil => rfl
      | cons character extra => simp [h.not_head? hp character rfl]
  | cons character text ih => rw [List.cons_append, List.takeWhile_cons, List.takeWhile_cons, ih]

theorem dropWhile_append (h : Interrupts extra) {p : Char → Bool}
    (hp : ∀ character, p character = true → goesOn character = true) (text : List Char) :
    (text ++ extra).dropWhile p = text.dropWhile p ++ extra := by
  induction text with
  | nil =>
      cases extra with
      | nil => rfl
      | cons character extra => simp [h.not_head? hp character rfl]
  | cons character text ih =>
      rw [List.cons_append, List.dropWhile_cons, List.dropWhile_cons, ih]
      split
      · rfl
      · rfl

theorem any_head?_append (h : Interrupts extra) {p : Char → Bool}
    (hp : ∀ character, p character = true → goesOn character = true) (text : List Char) :
    (text ++ extra).head?.any p = text.head?.any p := by
  cases text with
  | nil =>
      cases extra with
      | nil => rfl
      | cons character extra => exact h.not_head? hp character rfl
  | cons character text => rfl

theorem startsWith_append (h : Interrupts extra) {character : Char}
    (hgoes : goesOn character = true) (text : List Char) :
    startsWith (text ++ extra) character = startsWith text character := by
  cases text with
  | nil =>
      cases extra with
      | nil => rfl
      | cons first extra =>
          refine decide_eq_false fun heq => ?_
          cases heq
          rw [h character rfl] at hgoes
          cases hgoes
  | cons first text => rfl

/-! ## Numbers -/

theorem startsWithSuffix_append (h : Interrupts extra) (text : List Char) :
    startsWithSuffix (text ++ extra) = startsWithSuffix text := by
  cases text with
  | nil =>
      cases extra with
      | nil => rfl
      | cons character extra => exact h.not_head? @goesOn_of_isLongSuffix character rfl
  | cons first text => rfl

theorem pointBelongs_append (h : Interrupts extra) (text : List Char) :
    pointBelongs (text ++ extra) = pointBelongs text := by
  cases text with
  | nil =>
      cases extra with
      | nil => rfl
      | cons character extra =>
          have hname := h.not_head? @goesOn_of_isNameStart character rfl
          simp [pointBelongs, hname]
  | cons first text => rfl

theorem fraction?_append (h : Interrupts extra) (text : List Char) :
    fraction? (text ++ extra) = fraction? text := by
  cases text with
  | nil =>
      cases extra with
      | nil => rfl
      | cons character extra =>
          have hpoint : character ≠ '.' := by
            rintro rfl
            cases h '.' rfl
          rw [List.nil_append, fraction?.eq_2 _ fun _ heq => hpoint (List.cons.inj heq).1]
          rfl
  | cons first text =>
      rw [List.cons_append]
      by_cases hpoint : first = '.'
      · rw [hpoint, fraction?, fraction?, h.pointBelongs_append,
          h.takeWhile_append @goesOn_of_isDigit]
      · rw [fraction?, fraction?]
        · intro after heq
          exact hpoint (List.cons.inj heq).1
        · intro after heq
          exact hpoint (List.cons.inj heq).1

end Interrupts

/-- A run of characters at the front of a text, and then no more of it. -/
theorem takeWhile_append_stop {p : Char → Bool} {run : List Char}
    (hrun : ∀ character ∈ run, p character = true) {rest : List Char}
    (hstop : ∀ character ∈ rest.head?, p character = false) :
    (run ++ rest).takeWhile p = run ∧ (run ++ rest).dropWhile p = rest := by
  rw [List.takeWhile_append_of_pos hrun, List.dropWhile_append_of_pos hrun]
  cases rest with
  | nil => exact ⟨List.append_nil run, rfl⟩
  | cons character rest =>
      have hfails := hstop character rfl
      rw [List.takeWhile_cons_of_neg (by simp [hfails]),
        List.dropWhile_cons_of_neg (by simp [hfails])]
      exact ⟨List.append_nil run, rfl⟩

theorem fraction?_eq_some {digits : List Char} (h : fraction? text = some digits) :
    ∃ rest, text = '.' :: (digits ++ rest) ∧ pointBelongs (digits ++ rest) = true ∧
      ∀ digit ∈ digits, digit.isDigit = true := by
  rw [fraction?.eq_def] at h
  split at h
  · next behind =>
    split at h
    · next hbelongs =>
      cases h
      refine ⟨behind.dropWhile Char.isDigit, ?_, ?_, ?_⟩
      · rw [List.takeWhile_append_dropWhile]
      · rwa [List.takeWhile_append_dropWhile]
      · exact fun _ => List.mem_takeWhile_imp
    · cases h
  · cases h

theorem length_of_fraction? {digits : List Char} (h : fraction? text = some digits) :
    digits.length < text.length := by
  rw [fraction?.eq_def] at h
  split at h
  · next after =>
    split at h
    · cases h
      exact Nat.lt_succ_of_le (List.takeWhile_sublist _).length_le
    · cases h
  · cases h

theorem suffixed_le_length (text : List Char) : (startsWithSuffix text).toNat ≤ text.length := by
  cases text with
  | nil => exact Nat.zero_le _
  | cons first rest =>
      have hle : (startsWithSuffix (first :: rest)).toNat ≤ 1 := Bool.toNat_le _
      rw [List.length_cons]
      omega

namespace Numeral

theorem read_of_whole (h : fraction? (text.dropWhile Char.isDigit) = none) :
    read text =
      ⟨text.takeWhile Char.isDigit, none, startsWithSuffix (text.dropWhile Char.isDigit)⟩ := by
  rw [read, h]

theorem read_of_fraction {digits : List Char}
    (h : fraction? (text.dropWhile Char.isDigit) = some digits) :
    read text =
      ⟨text.takeWhile Char.isDigit, some digits,
        startsWithSuffix ((text.dropWhile Char.isDigit).drop (digits.length + 1))⟩ := by
  rw [read, h]

theorem read_append (h : Interrupts extra) (text : List Char) :
    read (text ++ extra) = read text := by
  have hbehind : (text ++ extra).dropWhile Char.isDigit =
      text.dropWhile Char.isDigit ++ extra :=
    h.dropWhile_append @goesOn_of_isDigit text
  have hsame := h.fraction?_append (text.dropWhile Char.isDigit)
  rw [← hbehind] at hsame
  cases hfraction : fraction? (text.dropWhile Char.isDigit) with
  | none =>
      rw [read_of_whole hfraction, read_of_whole (hsame.trans hfraction),
        h.takeWhile_append @goesOn_of_isDigit, hbehind, h.startsWithSuffix_append]
  | some digits =>
      rw [read_of_fraction hfraction, read_of_fraction (hsame.trans hfraction),
        h.takeWhile_append @goesOn_of_isDigit, hbehind,
        List.drop_append_of_le_length (length_of_fraction? hfraction),
        h.startsWithSuffix_append]

/-- A number takes no more characters than there are. -/
theorem length_read_le (text : List Char) : (read text).length ≤ text.length := by
  have hparts : (text.takeWhile Char.isDigit).length + (text.dropWhile Char.isDigit).length =
      text.length := by
    rw [← List.length_append, List.takeWhile_append_dropWhile]
  cases hfraction : fraction? (text.dropWhile Char.isDigit) with
  | none =>
      have hsuffix := suffixed_le_length (text.dropWhile Char.isDigit)
      rw [read_of_whole hfraction, length, Option.elim_none]
      dsimp only
      omega
  | some digits =>
      have hdigits := length_of_fraction? hfraction
      have hsuffix := suffixed_le_length
        ((text.dropWhile Char.isDigit).drop (digits.length + 1))
      rw [List.length_drop] at hsuffix
      rw [read_of_fraction hfraction, length, Option.elim_some]
      dsimp only
      omega

end Numeral

/-! ## Well-formed numbers -/

theorem isDecimal_of_digits {whole digits : List Char}
    (hwhole : ∀ digit ∈ whole, digit.isDigit = true)
    (hdigits : ∀ digit ∈ digits, digit.isDigit = true) (h : whole ≠ []) (h' : digits ≠ []) :
    isDecimal (whole ++ '.' :: digits) = true := by
  have hpoint : ∀ character ∈ ('.' :: digits).head?, character.isDigit = false :=
    fun _ hcharacter => by cases hcharacter; rfl
  obtain ⟨htaken, hdropped⟩ := takeWhile_append_stop hwhole hpoint
  rw [isDecimal, hdropped, htaken]
  simpa [h, h'] using hdigits

/-- Around a point, digits with a zero for those that are missing denote a double. -/
theorem isDecimal_padPoints {whole digits : List Char}
    (hwhole : ∀ digit ∈ whole, digit.isDigit = true)
    (hdigits : ∀ digit ∈ digits, digit.isDigit = true) :
    isDecimal (padPoints (whole ++ '.' :: digits)) = true := by
  have hne {digit : Char} (h : digit.isDigit = true) : digit ≠ '.' := by
    rintro rfl
    cases h
  have hzero : ∀ digit ∈ ['0'], digit.isDigit = true := List.forall_mem_singleton.mpr rfl
  obtain ⟨led, hled, hdigit, hsome⟩ : ∃ led,
      (if (whole ++ '.' :: digits).head? = some '.' then '0' :: (whole ++ '.' :: digits)
        else whole ++ '.' :: digits) = led ++ '.' :: digits ∧
      (∀ digit ∈ led, digit.isDigit = true) ∧ led ≠ [] := by
    cases whole with
    | nil => exact ⟨['0'], rfl, hzero, List.cons_ne_nil _ _⟩
    | cons first whole =>
        refine ⟨first :: whole, if_neg ?_, hwhole, List.cons_ne_nil _ _⟩
        simpa using hne (hwhole first List.mem_cons_self)
  rw [padPoints, hled]
  rcases List.eq_nil_or_concat digits with rfl | ⟨front, last, rfl⟩
  · simp only [List.getLast?_append, List.getLast?_singleton, Option.some_or, if_true,
      List.append_assoc]
    exact isDecimal_of_digits hdigit hzero hsome (List.cons_ne_nil _ _)
  · have hlast : (led ++ '.' :: front.concat last).getLast? = some last := by
      rw [← List.concat_cons, List.concat_eq_append, ← List.append_assoc, List.getLast?_concat]
    rw [hlast, if_neg]
    · exact isDecimal_of_digits hdigit hdigits hsome (by simp)
    · simpa using hne (hdigits last (by simp))

theorem Numeral.problem?_read (text : List Char) : (read text).problem? = none := by
  cases hfraction : fraction? (text.dropWhile Char.isDigit) with
  | none => rw [read_of_whole hfraction, problem?]
  | some digits =>
      obtain ⟨_, _, _, hdigits⟩ := fraction?_eq_some hfraction
      rw [read_of_fraction hfraction, problem?]
      exact if_pos (isDecimal_padPoints (fun _ => List.mem_takeWhile_imp) hdigits)

/-- A number that is read is never malformed. -/
theorem readNumber_eq (first : Char) (after : List Char) :
    readNumber first after =
      let numeral := Numeral.read (first :: after)
      ⟨.token (numberKind numeral.value) (some (.number numeral.value)), numeral.length - 1⟩ := by
  rw [readNumber, Numeral.problem?_read]

/-- A number has one of three kinds. -/
theorem numberKind_ne {kind : Kind} (h : kind ∉ [.int, .long, .double]) (number : Number) :
    numberKind number ≠ kind := by
  have hkind : numberKind number ∈ [Kind.int, .long, .double] := by
    cases number with
    | int value => exact .head _
    | long value => exact .tail _ (.head _)
    | double value => exact .tail _ (.tail _ (.head _))
  exact fun heq => h (heq ▸ hkind)

/-! ## Comments and strings -/

/-- A comment ends at the first closing behind its opening. -/
theorem commentLength?_eq_some_iff {length : Nat} :
    commentLength? text = some length ↔
      ∃ inner rest, text = inner ++ '*' :: '/' :: rest ∧ length = inner.length + 2 ∧
        ¬ ['*', '/'] <:+: inner ++ ['*'] := by
  constructor
  · intro h
    induction text using commentLength?.induct generalizing length with
    | case1 => cases h
    | case2 rest =>
        cases h
        exact ⟨[], rest, rfl, rfl, by decide⟩
    | case3 first rest hopen ih =>
        rw [commentLength?.eq_3 _ _ hopen] at h
        obtain ⟨shorter, hshorter, rfl⟩ := Option.map_eq_some_iff.mp h
        obtain ⟨inner, behind, rfl, rfl, hnot⟩ := ih hshorter
        refine ⟨first :: inner, behind, rfl, rfl, ?_⟩
        rw [List.cons_append, List.infix_cons_iff, not_or]
        refine ⟨fun hfirst => ?_, hnot⟩
        obtain ⟨heq, others, hothers⟩ := List.cons_prefix_cons.mp hfirst
        cases inner with
        | nil => cases hothers
        | cons second inner =>
            cases hothers
            exact hopen _ heq.symm rfl
  · rintro ⟨inner, rest, rfl, rfl, hnot⟩
    induction inner with
    | nil => rfl
    | cons first inner ih =>
        rw [List.cons_append, List.infix_cons_iff, not_or] at hnot
        have hopen : ∀ others, first = '*' → inner ++ '*' :: '/' :: rest = '/' :: others →
            False := by
          rintro others rfl hinner
          cases inner with
          | nil => cases hinner
          | cons second inner =>
              cases hinner
              exact hnot.1 (List.cons_prefix_cons.mpr ⟨rfl, inner ++ ['*'], rfl⟩)
        rw [List.cons_append, commentLength?.eq_3 _ _ hopen, ih hnot.2]
        rfl

/-- A comment that has an end has the same end in a longer text. -/
theorem commentLength?_append {length : Nat} (h : commentLength? text = some length)
    (extra : List Char) :
    commentLength? (text ++ extra) = some length ∧ length ≤ text.length := by
  obtain ⟨inner, rest, rfl, rfl, hnot⟩ := commentLength?_eq_some_iff.mp h
  constructor
  · rw [List.append_assoc]
    exact commentLength?_eq_some_iff.mpr ⟨inner, rest ++ extra, rfl, rfl, hnot⟩
  · simp

/-- A string that has an end has the same end in a longer text. -/
theorem stringBody?_append {value : List Char} {length : Nat}
    (h : stringBody? text = some (value, length)) (extra : List Char) :
    stringBody? (text ++ extra) = some (value, length) ∧ length ≤ text.length := by
  obtain ⟨inner, rest, hinner, rfl, rfl⟩ := stringBody?_eq_some_iff.mp h
  constructor
  · rw [List.append_assoc]
    exact stringBody?_eq_some_iff.mpr ⟨inner, rest ++ extra, hinner, rfl, rfl⟩
  · simp

/-! ## Pieces -/

theorem length_pos_of_startsWith {character : Char} (h : startsWith text character = true) :
    0 < text.length := by
  cases text with
  | nil => cases h
  | cons first rest => exact Nat.succ_pos _

/-- Whether a kind of token has no value and does not stand for the end. -/
def Kind.isMark : Kind → Bool
  | .string | .int | .long | .double | .endOfInput => false
  | _ => true

theorem Kind.ne_endOfInput_of_isMark {kind : Kind} (h : kind.isMark = true) :
    kind ≠ .endOfInput := by
  rintro rfl
  cases h

theorem isMark_of_punctuation? {character : Char} {kind : Kind}
    (h : punctuation? character = some kind) : kind.isMark = true := by
  rw [punctuation?.eq_def] at h
  split at h
  all_goals cases h
  all_goals rfl

theorem isMark_of_relation? {character : Char} {alone withEqual : Kind}
    (h : relation? character = some (alone, withEqual)) :
    alone.isMark = true ∧ withEqual.isMark = true := by
  rw [relation?.eq_def] at h
  split at h
  all_goals cases h
  all_goals exact ⟨rfl, rfl⟩

namespace Piece

/-- The ways to read a piece on with a given first character. -/
inductive Reader (first : Char) : (List Char → Piece) → Prop
  | sign {kind : Kind} (h : kind.isMark = true) : Reader first fun _ => .plain kind 0
  | relation {alone withEqual : Kind} (h : alone.isMark = true) (h' : withEqual.isMark = true) :
      Reader first fun after =>
        if startsWith after '=' then .plain withEqual 1 else .plain alone 0
  | blank (h : first = ' ' ∨ first = '\r' ∨ first = '\t') : Reader first fun _ => ⟨.gap, 0⟩
  | bang (h : first = '!') :
      Reader first fun after =>
        if startsWith after '=' then .plain .bangEqual 1 else ⟨.problem .bangWithoutEqual, 0⟩
  | slash (h : first = '/') :
      Reader first fun after =>
        if startsWith after '*' then readComment after else .plain .slash 0
  | point (h : first = '.') :
      Reader first fun after =>
        if after.head?.any Char.isDigit then readNumber first after else .plain .dot 0
  | string (h : first = '"') : Reader first readString
  | number (h : first.isDigit = true) : Reader first (readNumber first)
  | name : Reader first (readName first)
  | illegal : Reader first fun _ => ⟨.problem (.illegalCharacter first), 0⟩

/-- The first character of a piece says how to read on. -/
theorem reader_read (first : Char) : Reader first (read first) := by
  have hread : read first = fun after => read first after := rfl
  rw [hread]
  simp only [read]
  cases hpunctuation : punctuation? first with
  | some kind => exact .sign (isMark_of_punctuation? hpunctuation)
  | none =>
      cases hrelation : relation? first with
      | some kinds =>
          obtain ⟨halone, hwithEqual⟩ := isMark_of_relation? hrelation
          exact .relation halone hwithEqual
      | none =>
          by_cases hblank : first = ' ' ∨ first = '\r' ∨ first = '\t'
          · simp only [if_pos hblank]
            exact .blank hblank
          simp only [if_neg hblank]
          split
          · next hbang => exact .bang hbang
          split
          · next hslash => exact .slash hslash
          split
          · next hpoint => exact .point hpoint
          split
          · next hquote => exact .string hquote
          split
          · next hdigit => exact .number hdigit
          split
          · exact .name
          · exact .illegal

/-- What holds of a piece in front of a text of some size, unless it is a problem: in front
of a longer text it is the same piece, it takes no more characters than there are, and it
does not stand for the end. -/
structure Settled (piece longer : Piece) (size : Nat) : Prop where
  same : longer = piece
  length_le : piece.length ≤ size
  kind_ne : ∀ kind literal, piece.content = .token kind literal → kind ≠ .endOfInput

/-- A piece that is settled in front of a text of some size, or is a problem. -/
def Settles (piece longer : Piece) (size : Nat) : Prop :=
  (∀ problem, piece.content ≠ .problem problem) → Settled piece longer size

variable {piece longer piece' longer' : Piece} {size : Nat} {after : List Char}

theorem settles_problem (problem : Problem) (length : Nat) :
    Settles ⟨.problem problem, length⟩ longer size :=
  fun hread => (hread problem rfl).elim

theorem settles_gap {length : Nat} (hle : length ≤ size) :
    Settles ⟨.gap, length⟩ ⟨.gap, length⟩ size :=
  fun _ => ⟨rfl, hle, nofun⟩

theorem settles_token {kind : Kind} {literal : Option Literal} {length : Nat}
    (hkind : kind ≠ .endOfInput) (hle : length ≤ size) :
    Settles ⟨.token kind literal, length⟩ ⟨.token kind literal, length⟩ size :=
  fun _ => ⟨rfl, hle, fun _ _ hcontent => by cases hcontent; exact hkind⟩

theorem settles_ite {condition : Prop} [Decidable condition]
    (h : condition → Settles piece longer size) (h' : ¬ condition → Settles piece' longer' size) :
    Settles (if condition then piece else piece') (if condition then longer else longer') size := by
  split
  · next hholds => exact h hholds
  · next hfails => exact h' hfails

theorem settles_startsWith (hextra : Interrupts extra) {character : Char}
    (hgoes : goesOn character = true)
    (h : startsWith after character = true → Settles piece longer size)
    (h' : Settles piece' longer' size) :
    Settles (if startsWith after character then piece else piece')
      (if startsWith (after ++ extra) character then longer else longer') size := by
  rw [hextra.startsWith_append hgoes]
  exact settles_ite h fun _ => h'

theorem settles_readNumber (h : Interrupts extra) (first : Char) (after : List Char) :
    Settles (readNumber first after) (readNumber first (after ++ extra)) after.length := by
  rw [readNumber_eq, readNumber_eq, ← List.cons_append, Numeral.read_append h]
  exact settles_token (numberKind_ne (by decide) _)
    (Nat.sub_le_of_le_add (Numeral.length_read_le (first :: after)))

theorem settles_readName (h : Interrupts extra) (first : Char) (after : List Char) :
    Settles (readName first after) (readName first (after ++ extra)) after.length := by
  rw [readName, readName, h.takeWhile_append @goesOn_of_isNamePart]
  refine settles_token ?_ (List.takeWhile_sublist _).length_le
  split
  · exact nofun
  · exact nofun

theorem settles_readString (after extra : List Char) :
    Settles (readString after) (readString (after ++ extra)) after.length := by
  cases hbody : stringBody? after with
  | none =>
      rw [readString, hbody]
      exact settles_problem _ _
  | some body =>
      obtain ⟨hsame, hle⟩ := stringBody?_append hbody extra
      rw [readString, readString, hsame, hbody]
      exact settles_token nofun hle

theorem settles_readComment (hafter : 0 < after.length) (extra : List Char) :
    Settles (readComment after) (readComment (after ++ extra)) after.length := by
  cases hcomment : commentLength? (after.drop 1) with
  | none =>
      rw [readComment, hcomment]
      exact settles_problem _ _
  | some length =>
      obtain ⟨hsame, hle⟩ := commentLength?_append hcomment extra
      rw [List.length_drop] at hle
      rw [readComment, readComment, List.drop_append_of_le_length hafter, hsame, hcomment]
      refine settles_gap ?_
      omega

/-- A piece with an end is the same piece before a new line and before a space. -/
theorem settles_read (h : Interrupts extra) (first : Char) (after : List Char) :
    Settles (read first after) (read first (after ++ extra)) after.length := by
  generalize hreader : read first = reader
  cases hreader ▸ reader_read first with
  | sign hkind => exact settles_token (Kind.ne_endOfInput_of_isMark hkind) (Nat.zero_le _)
  | relation halone hwithEqual =>
      exact settles_startsWith h (by decide)
        (fun hstarts => settles_token (Kind.ne_endOfInput_of_isMark hwithEqual)
          (length_pos_of_startsWith hstarts))
        (settles_token (Kind.ne_endOfInput_of_isMark halone) (Nat.zero_le _))
  | blank => exact settles_gap (Nat.zero_le _)
  | bang =>
      exact settles_startsWith h (by decide)
        (fun hstarts => settles_token nofun (length_pos_of_startsWith hstarts))
        (settles_problem _ _)
  | slash =>
      exact settles_startsWith h (by decide)
        (fun hstarts => settles_readComment (length_pos_of_startsWith hstarts) extra)
        (settles_token nofun (Nat.zero_le _))
  | point =>
      simp only [h.any_head?_append @goesOn_of_isDigit]
      exact settles_ite (fun _ => settles_readNumber h first after)
        fun _ => settles_token nofun (Nat.zero_le _)
  | string => exact settles_readString after extra
  | number => exact settles_readNumber h first after
  | name => exact settles_readName h first after
  | illegal => exact settles_problem _ _

end Piece

end Script.Token
