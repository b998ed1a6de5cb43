/-
# Strings as they are written

A string stands between quotes. Each of its characters is written as itself, unless it is a
quote or a backslash, or behind a backslash: a line feed, a tab and a carriage return by a
letter, all others by themselves. Reading goes back from what is written to the characters,
and it ends at the first quote that is not behind a backslash.
-/

import Script.Token.Piece

namespace Script.Token

/-- The ways to write a character in a string. -/
inductive Writes : Char → List Char → Prop
  | raw {character : Char} (h : character ≠ '"' ∧ character ≠ '\\') :
      Writes character [character]
  | lineFeed : Writes '\n' ['\\', 'n']
  | tab : Writes '\t' ['\\', 't']
  | carriageReturn : Writes '\r' ['\\', 'r']
  | escaped {character : Char} (h : character ≠ 'n' ∧ character ≠ 't' ∧ character ≠ 'r') :
      Writes character ['\\', character]

/-- The ways to write characters one behind the other. -/
inductive WritesEach : List Char → List Char → Prop
  | nil : WritesEach [] []
  | cons {character : Char} {value written text : List Char} (h : Writes character written)
      (others : WritesEach value text) : WritesEach (character :: value) (written ++ text)

variable {character : Char} {value written inner text : List Char} {length : Nat}

/-- Behind a backslash each character but a letter for another one stands for itself. -/
theorem writes_unescape (character : Char) : Writes (unescape character) ['\\', character] := by
  rw [unescape.eq_def]
  split
  · exact .lineFeed
  · exact .tab
  · exact .carriageReturn
  · next hn ht hr => exact .escaped ⟨hn, ht, hr⟩

/-- A character is read as it was written. -/
theorem stringBody?_writes (h : Writes character written) (text : List Char) :
    stringBody? (written ++ text) =
      (stringBody? text).map fun (value, length) =>
        (character :: value, length + written.length) := by
  cases h with
  | raw h =>
      exact stringBody?.eq_5 _ _ h.1 (fun heq _ => h.2 heq) (fun _ _ heq _ => h.2 heq)
  | lineFeed => rfl
  | tab => rfl
  | carriageReturn => rfl
  | escaped h =>
      have hitself : unescape character = character := by
        rw [unescape.eq_4 _ h.1 h.2.1 h.2.2]
      rw [List.cons_append, List.singleton_append, stringBody?.eq_4, hitself]
      rfl

/-- Characters are read as they were written, up to the closing quote. -/
theorem stringBody?_writesEach (h : WritesEach value inner) (extra : List Char) :
    stringBody? (inner ++ '"' :: extra) = some (value, inner.length + 1) := by
  induction h with
  | nil => rfl
  | @cons character value written text hwrites _ ih =>
      rw [List.append_assoc, stringBody?_writes hwrites, ih, Option.map_some, List.length_append,
        Nat.add_comm written.length, Nat.add_right_comm]

/-- What is read up to a closing quote is a string as it may be written. -/
theorem exists_of_stringBody? (h : stringBody? text = some (value, length)) :
    ∃ inner rest, WritesEach value inner ∧ text = inner ++ '"' :: rest ∧
      length = inner.length + 1 := by
  induction text using stringBody?.induct generalizing value length with
  | case1 => cases h
  | case2 rest =>
      cases h
      exact ⟨[], rest, .nil, rfl, rfl⟩
  | case3 => cases h
  | case4 character rest ih =>
      rw [stringBody?.eq_4] at h
      obtain ⟨⟨others, shorter⟩, hshorter, hvalue⟩ := Option.map_eq_some_iff.mp h
      obtain ⟨inner, behind, hinner, rfl, rfl⟩ := ih hshorter
      cases hvalue
      exact ⟨_, behind, .cons (writes_unescape character) hinner, rfl, rfl⟩
  | case5 character rest hquote halone hescape ih =>
      have hslash : character ≠ '\\' := by
        intro heq
        cases rest with
        | nil => exact halone heq rfl
        | cons first rest => exact hescape first rest heq rfl
      rw [stringBody?.eq_5 _ _ hquote halone hescape] at h
      obtain ⟨⟨others, shorter⟩, hshorter, hvalue⟩ := Option.map_eq_some_iff.mp h
      obtain ⟨inner, behind, hinner, rfl, rfl⟩ := ih hshorter
      cases hvalue
      exact ⟨_, behind, .cons (.raw ⟨hquote, hslash⟩) hinner, rfl, rfl⟩

/-- A string is what is written up to the first quote that stands for itself. -/
theorem stringBody?_eq_some_iff :
    stringBody? text = some (value, length) ↔
      ∃ inner rest, WritesEach value inner ∧ text = inner ++ '"' :: rest ∧
        length = inner.length + 1 := by
  constructor
  · exact exists_of_stringBody?
  · rintro ⟨inner, rest, hinner, rfl, rfl⟩
    exact stringBody?_writesEach hinner rest

end Script.Token
