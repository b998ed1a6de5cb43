/-
# Pieces by themselves

A piece that has an end is made of its own characters only: cut off behind it, a text
still begins with the same piece. So a kind and a value belong to the characters of a
token, whatever stood around them, and a piece without an own value is blank or a comment
that ends at its first closing.
-/

import Script.Proofs.Token.Scan

namespace Script.Token

variable {text after : List Char} {first : Char}

/-! ## Numbers -/

/-- What stands at the place of a suffix: nothing, or the suffix alone. -/
theorem take_suffix (text : List Char) :
    (startsWithSuffix text = false ∧ text.take (startsWithSuffix text).toNat = []) ∨
      ∃ character, isLongSuffix character = true ∧ startsWithSuffix text = true ∧
        text.take (startsWithSuffix text).toNat = [character] := by
  cases text with
  | nil => exact .inl ⟨rfl, rfl⟩
  | cons character rest =>
      cases hsuffix : isLongSuffix character with
      | false =>
          have hstarts : startsWithSuffix (character :: rest) = false := hsuffix
          exact .inl ⟨hstarts, by rw [hstarts]; rfl⟩
      | true =>
          have hstarts : startsWithSuffix (character :: rest) = true := hsuffix
          exact .inr ⟨character, hsuffix, hstarts, by rw [hstarts]; rfl⟩

theorem startsWithSuffix_take (text : List Char) :
    startsWithSuffix (text.take (startsWithSuffix text).toNat) = startsWithSuffix text := by
  obtain ⟨hstarts, htake⟩ | ⟨character, hsuffix, hstarts, htake⟩ := take_suffix text
  · rw [htake, hstarts]
    rfl
  · rw [htake, hstarts]
    exact hsuffix

theorem isLongSuffix_iff {character : Char} :
    isLongSuffix character = true ↔ character = 'L' ∨ character = 'l' := by
  rw [isLongSuffix, Bool.or_eq_true, decide_eq_true_iff, decide_eq_true_iff]

/-- A suffix is no digit and no point. -/
theorem head?_take_suffix (text : List Char) :
    ∀ character ∈ (text.take (startsWithSuffix text).toNat).head?,
      character.isDigit = false ∧ character ≠ '.' := by
  intro character h
  obtain ⟨_, htake⟩ | ⟨suffix, hsuffix, _, htake⟩ := take_suffix text
  · rw [htake] at h
    cases h
  · rw [htake] at h
    cases h
    obtain rfl | rfl := isLongSuffix_iff.mp hsuffix
    · decide
    · decide

/-- A point that belongs to a number does so whatever stands behind the number. -/
theorem pointBelongs_take {digits : List Char} (h : pointBelongs (digits ++ text) = true) :
    pointBelongs (digits ++ text.take (startsWithSuffix text).toNat) = true := by
  cases digits with
  | cons digit digits => exact h
  | nil =>
      obtain ⟨_, htake⟩ | ⟨suffix, hsuffix, _, htake⟩ := take_suffix text
      · rw [htake]
        rfl
      · rw [htake]
        simp [pointBelongs, hsuffix]

theorem head?_dropWhile {p : Char → Bool} {character : Char}
    (h : character ∈ (text.dropWhile p).head?) : p character = false := by
  have hnot := List.head?_dropWhile_not p text
  rw [Option.mem_def] at h
  rwa [h] at hnot

theorem isNameStart_of_isDigit {digit : Char} (h : digit.isDigit = true) :
    isNameStart digit = false := by
  have hne (character : Char) (hnot : character.isDigit = false) : digit ≠ character := by
    rintro rfl
    rw [h] at hnot
    cases hnot
  have hdigit : (decide (digit.val ≥ 48) && decide (digit.val ≤ 57)) = true := h
  have hupper : digit.isUpper = decide (digit.val ≥ 65 ∧ digit.val ≤ 90) := rfl
  have hlower : digit.isLower = (decide (digit.val ≥ 97) && decide (digit.val ≤ 122)) := rfl
  have halpha : digit.isAlpha = (digit.isUpper || digit.isLower) := rfl
  have hunderscore := hne '_' rfl
  have hdollar := hne '$' rfl
  rw [isNameStart, halpha, hupper, hlower]
  grind

namespace Numeral

/-- The number at the front of a text in which digits are not followed by a point of
theirs. -/
theorem read_append_of_whole {whole rest : List Char}
    (hwhole : ∀ digit ∈ whole, digit.isDigit = true)
    (hstop : ∀ character ∈ rest.head?, character.isDigit = false) (h : fraction? rest = none) :
    read (whole ++ rest) = ⟨whole, none, startsWithSuffix rest⟩ := by
  obtain ⟨htaken, hdropped⟩ := takeWhile_append_stop hwhole hstop
  rw [read_of_whole (by rw [hdropped, h]), htaken, hdropped]

/-- The number at the front of a text in which digits are followed by a point of theirs. -/
theorem read_append_of_fraction {whole digits rest : List Char}
    (hwhole : ∀ digit ∈ whole, digit.isDigit = true)
    (h : fraction? ('.' :: (digits ++ rest)) = some digits) :
    read (whole ++ '.' :: (digits ++ rest)) = ⟨whole, some digits, startsWithSuffix rest⟩ := by
  have hpoint : ∀ character ∈ ('.' :: (digits ++ rest)).head?, character.isDigit = false :=
    fun _ hcharacter => by cases hcharacter; rfl
  obtain ⟨htaken, hdropped⟩ := takeWhile_append_stop hwhole hpoint
  rw [read_of_fraction (by rw [hdropped, h]), htaken, hdropped, List.drop_succ_cons,
    List.drop_left]

/-- A number without a point is written in its own characters. -/
theorem read_take_of_whole {whole rest : List Char}
    (hwhole : ∀ digit ∈ whole, digit.isDigit = true)
    (hstop : ∀ character ∈ rest.head?, character.isDigit = false) (h : fraction? rest = none) :
    read ((whole ++ rest).take (read (whole ++ rest)).length) = read (whole ++ rest) := by
  have hnone : fraction? (rest.take (startsWithSuffix rest).toNat) = none := by
    rw [fraction?]
    intro behind heq
    exact (head?_take_suffix rest '.' (by rw [heq]; rfl)).2 rfl
  rw [read_append_of_whole hwhole hstop h, length, Option.elim_none, Nat.add_zero,
    List.take_length_add_append, read_append_of_whole hwhole (fun character hcharacter =>
      (head?_take_suffix rest character hcharacter).1) hnone, startsWithSuffix_take]

/-- A number with a point is written in its own characters. -/
theorem read_take_of_fraction {whole digits behind : List Char}
    (hwhole : ∀ digit ∈ whole, digit.isDigit = true)
    (hdigits : ∀ digit ∈ digits, digit.isDigit = true)
    (hbelongs : pointBelongs (digits ++ behind) = true)
    (h : fraction? ('.' :: (digits ++ behind)) = some digits) :
    let text := whole ++ '.' :: (digits ++ behind)
    read (text.take (read text).length) = read text := by
  have hsome : fraction? ('.' :: (digits ++ behind.take (startsWithSuffix behind).toNat)) =
      some digits := by
    obtain ⟨hrun, -⟩ := takeWhile_append_stop hdigits fun character hcharacter =>
      (head?_take_suffix behind character hcharacter).1
    rw [fraction?, if_pos (pointBelongs_take hbelongs), hrun]
  have htake : ('.' :: (digits ++ behind)).take
      (digits.length + 1 + (startsWithSuffix behind).toNat) =
        '.' :: (digits ++ behind.take (startsWithSuffix behind).toNat) := by
    rw [Nat.add_right_comm, List.take_succ_cons, List.take_length_add_append]
  intro text
  rw [read_append_of_fraction hwhole h, length, Option.elim_some, Nat.add_assoc,
    List.take_length_add_append, htake, read_append_of_fraction hwhole hsome,
    startsWithSuffix_take]

/-- A number is written in its own characters. -/
theorem read_take (text : List Char) : read (text.take (read text).length) = read text := by
  have hwhole (digit : Char) (h : digit ∈ text.takeWhile Char.isDigit) : digit.isDigit = true :=
    List.mem_takeWhile_imp h
  have hstop (character : Char) (h : character ∈ (text.dropWhile Char.isDigit).head?) :=
    head?_dropWhile h
  have hsplit : text = text.takeWhile Char.isDigit ++ text.dropWhile Char.isDigit :=
    List.takeWhile_append_dropWhile.symm
  generalize text.takeWhile Char.isDigit = whole at *
  generalize text.dropWhile Char.isDigit = rest at *
  subst hsplit
  cases hfraction : fraction? rest with
  | none => exact read_take_of_whole hwhole hstop hfraction
  | some digits =>
      obtain ⟨behind, rfl, hbelongs, hdigits⟩ := fraction?_eq_some hfraction
      exact read_take_of_fraction hwhole hdigits hbelongs hfraction

/-- The number behind a point that a digit follows has the point and a digit. -/
theorem two_le_length_read (h : after.head?.any Char.isDigit = true) :
    2 ≤ (read ('.' :: after)).length := by
  cases after with
  | nil => cases h
  | cons digit after =>
      have hdigit : digit.isDigit = true := h
      have hbelongs : pointBelongs (digit :: after) = true := by
        rw [pointBelongs, isNameStart_of_isDigit hdigit]
        rfl
      have hfraction : fraction? (List.dropWhile Char.isDigit ('.' :: digit :: after)) =
          some (digit :: after.takeWhile Char.isDigit) := by
        rw [List.dropWhile_cons_of_neg (by decide), fraction?, if_pos hbelongs,
          List.takeWhile_cons_of_pos hdigit]
      rw [read_of_fraction hfraction, length, Option.elim_some, List.length_cons]
      dsimp only
      omega

theorem one_le_length_read (h : first.isDigit = true) : 1 ≤ (read (first :: after)).length := by
  have hwhole : 1 ≤ (read (first :: after)).whole.length := by
    rw [show (read (first :: after)).whole = (first :: after).takeWhile Char.isDigit by
      rw [read]; split <;> rfl, List.takeWhile_cons_of_pos h, List.length_cons]
    omega
  rw [length]
  omega

end Numeral

/-! ## Comments and strings -/

theorem commentLength?_take {length : Nat} (h : commentLength? text = some length) :
    commentLength? (text.take length) = some length := by
  obtain ⟨inner, rest, rfl, rfl, hnot⟩ := commentLength?_eq_some_iff.mp h
  rw [List.take_length_add_append]
  exact commentLength?_eq_some_iff.mpr ⟨inner, [], rfl, rfl, hnot⟩

theorem stringBody?_take {value : List Char} {length : Nat}
    (h : stringBody? text = some (value, length)) :
    stringBody? (text.take length) = some (value, length) := by
  obtain ⟨inner, rest, hinner, rfl, rfl⟩ := stringBody?_eq_some_iff.mp h
  rw [List.take_length_add_append]
  exact stringBody?_eq_some_iff.mpr ⟨inner, [], hinner, rfl, rfl⟩

/-! ## Pieces -/

/-- A digit or the beginning of a name is no sign. -/
theorem read_of_ordinary (h : (first.isDigit || isNameStart first) = true) (after : List Char) :
    Piece.read first after =
      if first.isDigit then readNumber first after else readName first after := by
  have hne {character : Char}
      (hcharacter : (character.isDigit || isNameStart character) = false) :
      first ≠ character := by
    rintro rfl
    rw [h] at hcharacter
    cases hcharacter
  have hpunctuation : punctuation? first = none := by
    rw [punctuation?.eq_def]
    split
    case h_14 => rfl
    all_goals exact absurd h (by decide)
  have hrelation : relation? first = none := by
    rw [relation?.eq_def]
    split
    case h_4 => rfl
    all_goals exact absurd h (by decide)
  have hblank : ¬(first = ' ' ∨ first = '\r' ∨ first = '\t') :=
    not_or.mpr ⟨hne rfl, not_or.mpr ⟨hne rfl, hne rfl⟩⟩
  rw [Piece.read, hpunctuation, hrelation]
  dsimp only
  rw [if_neg hblank, if_neg (hne rfl), if_neg (hne rfl), if_neg (hne rfl),
    if_neg (hne rfl)]
  split
  · rfl
  · next hdigit =>
    rw [if_pos (by simpa [hdigit] using h)]

theorem read_of_isDigit (h : first.isDigit = true) (after : List Char) :
    Piece.read first after = readNumber first after := by
  rw [read_of_ordinary (by rw [h]; rfl), if_pos h]

theorem read_of_isNameStart (h : isNameStart first = true) (after : List Char) :
    Piece.read first after = readName first after := by
  have hdigit : ¬first.isDigit = true := by
    intro hdigit
    rw [isNameStart_of_isDigit hdigit] at h
    cases h
  rw [read_of_ordinary (by rw [h, Bool.or_true]), if_neg hdigit]

namespace Piece

/-- A way to read on makes a piece of its own characters only, unless it fails. -/
def IsLocal (reader : List Char → Piece) (after : List Char) : Prop :=
  (∀ problem, (reader after).content ≠ .problem problem) →
    reader (after.take (reader after).length) = reader after

theorem isLocal_const (piece : Piece) (after : List Char) : IsLocal (fun _ => piece) after :=
  fun _ => rfl

/-- A sign that is longer in front of some texts. -/
theorem isLocal_ite (test : List Char → Bool) {longer : List Char → Piece} {content : Content}
    (hnil : test [] = false)
    (h : test after = true →
      test (after.take (longer after).length) = true ∧ IsLocal longer after) :
    IsLocal (fun after => if test after then longer after else ⟨content, 0⟩) after := by
  cases htest : test after with
  | false =>
      intro _
      simp only [htest, Bool.false_eq_true, if_false, List.take_zero, hnil]
  | true =>
      obtain ⟨hagain, hlocal⟩ := h htest
      intro hproblem
      simp only [htest, if_true] at hproblem ⊢
      rw [if_pos hagain, hlocal hproblem]

theorem startsWith_take {character : Char} {length : Nat}
    (h : startsWith after character = true) (hpos : 0 < length) :
    startsWith (after.take length) character = true := by
  rwa [startsWith, List.head?_take, if_neg (Nat.ne_of_gt hpos)]

theorem isLocal_readNumber (hpos : 1 ≤ (Numeral.read (first :: after)).length) :
    IsLocal (readNumber first) after := by
  intro _
  have hcut : first :: after.take (readNumber first after).length =
      (first :: after).take (Numeral.read (first :: after)).length := by
    rw [readNumber_eq, ← List.take_succ_cons, Nat.sub_add_cancel hpos]
  rw [readNumber_eq, hcut, Numeral.read_take, readNumber_eq]

theorem isLocal_readString (after : List Char) : IsLocal readString after := by
  intro hproblem
  cases hbody : stringBody? after with
  | none =>
      rw [readString, hbody] at hproblem
      exact (hproblem _ rfl).elim
  | some body =>
      have hread : readString after =
          ⟨.token .string (some (.string (String.ofList body.1))), body.2⟩ := by
        rw [readString, hbody]
      rw [hread, readString, stringBody?_take hbody]

theorem length_readComment_pos (h : startsWith after '*' = true) :
    0 < (readComment after).length := by
  rw [readComment]
  split
  · exact Nat.succ_pos _
  · exact length_pos_of_startsWith h

theorem isLocal_readComment (after : List Char) : IsLocal readComment after := by
  intro hproblem
  cases hcomment : commentLength? (after.drop 1) with
  | none =>
      rw [readComment, hcomment] at hproblem
      exact (hproblem _ rfl).elim
  | some length =>
      have hread : readComment after = ⟨.gap, length + 1⟩ := by
        rw [readComment, hcomment]
      rw [hread, readComment, List.drop_take, Nat.add_sub_cancel, commentLength?_take hcomment]

theorem isLocal_readName (first : Char) (after : List Char) :
    IsLocal (readName first) after := by
  intro _
  have htake : after.take (readName first after).length = after.takeWhile isNamePart :=
    (List.prefix_iff_eq_take.mp (List.takeWhile_prefix isNamePart)).symm
  rw [htake, readName, readName]
  rw [List.takeWhile_idem]

/-- A piece that has an end is made of its own characters only. -/
theorem isLocal_read (first : Char) (after : List Char) : IsLocal (read first) after := by
  generalize hreader : read first = reader
  cases hreader ▸ reader_read first with
  | sign => exact isLocal_const _ after
  | relation =>
      exact isLocal_ite _ rfl fun hstarts =>
        ⟨startsWith_take hstarts Nat.one_pos, isLocal_const _ after⟩
  | blank => exact isLocal_const _ after
  | bang =>
      exact isLocal_ite _ rfl fun hstarts =>
        ⟨startsWith_take hstarts Nat.one_pos, isLocal_const _ after⟩
  | slash =>
      exact isLocal_ite _ rfl fun hstarts =>
        ⟨startsWith_take hstarts (length_readComment_pos hstarts), isLocal_readComment after⟩
  | point hpoint =>
      subst hpoint
      refine isLocal_ite (·.head?.any Char.isDigit) rfl fun hdigit => ?_
      have hlength := Numeral.two_le_length_read hdigit
      refine ⟨?_, isLocal_readNumber (Nat.le_of_succ_le hlength)⟩
      have hpos : (readNumber '.' after).length ≠ 0 := by
        rw [readNumber_eq]
        exact Nat.sub_ne_zero_of_lt hlength
      rwa [List.head?_take, if_neg hpos]
  | string => exact isLocal_readString after
  | number hdigit => exact isLocal_readNumber (Numeral.one_le_length_read hdigit)
  | name => exact isLocal_readName first after
  | illegal => exact isLocal_const _ after

end Piece

end Script.Token
