/-
# Quoted text is read in one way only

The text of a character between quotes can be told from all that may stand behind it: no
such text begins another. So a row of characters that begins with a quoted text says where
that text ends and of which text it is the quotation, whichever characters are in it.
-/

import Script.Proofs.Token.Lexeme
import Script.Text.Quoted

namespace Script.Text

variable {left right : Char} {rest rest' : List Char}

/-- Two runs of characters with a property, each before something that begins without it,
are one run if the rows they are in are one row. -/
theorem eq_and_eq_of_run_append_eq {p : Char → Bool} {run run' : List Char}
    (hrun : ∀ character ∈ run, p character = true)
    (hrun' : ∀ character ∈ run', p character = true)
    (hstop : ∀ character ∈ rest.head?, p character = false)
    (hstop' : ∀ character ∈ rest'.head?, p character = false)
    (h : run ++ rest = run' ++ rest') : run = run' ∧ rest = rest' := by
  obtain ⟨htake, hdrop⟩ := Token.takeWhile_append_stop hrun hstop
  obtain ⟨htake', hdrop'⟩ := Token.takeWhile_append_stop hrun' hstop'
  rw [h] at htake hdrop
  exact ⟨htake.symm.trans htake', hdrop.symm.trans hdrop'⟩

/-! ## Codes -/

theorem digitChar_injOn {n m : Nat} (hn : n < 16) (hm : m < 16)
    (h : n.digitChar = m.digitChar) : n = m := by
  have hall : ∀ n m : Fin 16, n.val.digitChar = m.val.digitChar → n = m := by decide
  exact congrArg Fin.val (hall ⟨n, hn⟩ ⟨m, hm⟩ h)

theorem digitChar_ne_brace {n : Nat} (hn : n < 16) : n.digitChar ≠ '\x7d' := by
  have hall : ∀ n : Fin 16, n.val.digitChar ≠ '\x7d' := by decide
  exact hall ⟨n, hn⟩

/-- A number is known from its hexadecimal digits. -/
theorem toDigits_injective : Function.Injective (Nat.toDigits 16) := by
  intro n
  induction n using Nat.strong_induction_on with
  | _ n ih =>
      intro m h
      rw [Nat.toDigits_eq_if (by decide), Nat.toDigits_eq_if (n := m) (by decide)] at h
      split at h <;> split at h
      · next hn hm => exact digitChar_injOn hn hm (List.singleton_inj.mp h)
      · have hnone : [] = Nat.toDigits 16 (m / 16) :=
          (List.append_inj' ((List.nil_append _).trans h) rfl).1
        exact (Nat.toDigits_ne_nil hnone.symm).elim
      · have hnone : Nat.toDigits 16 (n / 16) = [] :=
          (List.append_inj' (h.trans (List.nil_append _).symm) rfl).1
        exact (Nat.toDigits_ne_nil hnone).elim
      · next hn hm =>
        obtain ⟨hfront, hback⟩ := List.append_inj' h rfl
        have hquotient : n / 16 = m / 16 := ih (n / 16) (by omega) hfront
        have hremainder : n % 16 = m % 16 :=
          digitChar_injOn (Nat.mod_lt n (by decide)) (Nat.mod_lt m (by decide))
            (List.singleton_inj.mp hback)
        omega

/-- No hexadecimal digit is a closing brace. -/
theorem ne_brace_of_mem_toDigits (n : Nat) :
    ∀ digit ∈ Nat.toDigits 16 n, digit ≠ '\x7d' := by
  induction n using Nat.strong_induction_on with
  | _ n ih =>
      intro digit hdigit
      rw [Nat.toDigits_eq_if (by decide)] at hdigit
      split at hdigit
      · next hn => exact List.mem_singleton.mp hdigit ▸ digitChar_ne_brace hn
      · next hn =>
        obtain hfront | hback := List.mem_append.mp hdigit
        · exact ih (n / 16) (by omega) digit hfront
        · exact List.mem_singleton.mp hback ▸ digitChar_ne_brace (Nat.mod_lt n (by decide))

theorem codeEscape_append_inj (h : codeEscape left ++ rest = codeEscape right ++ rest') :
    left = right ∧ rest = rest' := by
  have hrun (character : Char) :
      ∀ digit ∈ Nat.toDigits 16 character.toNat, (digit != '\x7d') = true :=
    fun digit hdigit => bne_iff_ne.mpr (ne_brace_of_mem_toDigits _ digit hdigit)
  have hstop (behind : List Char) :
      ∀ character ∈ ('\x7d' :: behind).head?, (character != '\x7d') = false := by
    rintro _ ⟨⟩
    rfl
  simp only [codeEscape, List.cons_append, List.append_assoc, List.cons.injEq, true_and]
    at h
  obtain ⟨hdigits, hbehind⟩ :=
    eq_and_eq_of_run_append_eq (hrun left) (hrun right) (hstop rest) (hstop rest') h
  exact ⟨Char.toNat_inj.mp (toDigits_injective hdigits), (List.cons.inj hbehind).2⟩

/-! ## Characters -/

/-- The six characters with a short escape, and the escapes. -/
theorem shortEscape?_eq_some_iff {short : Char} :
    shortEscape? left = some short ↔
      (left, short) ∈ [('"', '"'), ('\\', '\\'), ('\n', 'n'), ('\r', 'r'), ('\t', 't'),
        ('\x00', '0')] := by
  rw [shortEscape?.eq_def]
  split <;> simp_all [eq_comm]

/-- A character between quotes is a backslash and its short escape, or the character
itself, which is no quote and no backslash, or its code. -/
theorem escape_cases (character : Char) :
    (∃ short, shortEscape? character = some short ∧ escape character = ['\\', short]) ∨
      (character ≠ '"' ∧ character ≠ '\\' ∧ escape character = [character]) ∨
      escape character = codeEscape character := by
  rw [escape.eq_def]
  split
  · next short hshort => exact .inl ⟨short, hshort, rfl⟩
  · next hnone =>
    split
    · refine .inr (.inl ⟨?_, ?_, rfl⟩)
      · rintro rfl
        cases hnone
      · rintro rfl
        cases hnone
    · exact .inr (.inr rfl)

theorem shortEscape?_inj {short : Char} (h : shortEscape? left = some short)
    (h' : shortEscape? right = some short) : left = right := by
  have hleft := shortEscape?_eq_some_iff.mp h
  have hright := shortEscape?_eq_some_iff.mp h'
  simp only [List.mem_cons, List.not_mem_nil, or_false, Prod.mk.injEq] at hleft hright
  grind

theorem shortEscape?_ne_some_u : shortEscape? left ≠ some 'u' := by
  rw [ne_eq, shortEscape?_eq_some_iff]
  simp

/-- The text of a character between quotes is no beginning of that of another. -/
theorem escape_append_inj (h : escape left ++ rest = escape right ++ rest') :
    left = right ∧ rest = rest' := by
  obtain ⟨short, hshort, hleft⟩ | ⟨-, hne, hleft⟩ | hleft := escape_cases left <;>
    obtain ⟨short', hshort', hright⟩ | ⟨-, hne', hright⟩ | hright := escape_cases right <;>
    rw [hleft, hright] at h
  · obtain ⟨-, rfl, hrest⟩ : '\\' = '\\' ∧ short = short' ∧ rest = rest' := by simpa using h
    exact ⟨shortEscape?_inj hshort hshort', hrest⟩
  · exact (hne' (List.cons.inj h).1.symm).elim
  · obtain rfl : short = 'u' := (List.cons.inj (List.cons.inj h).2).1
    exact (shortEscape?_ne_some_u hshort).elim
  · exact (hne (List.cons.inj h).1).elim
  · exact List.cons.inj h
  · exact (hne (List.cons.inj h).1).elim
  · obtain rfl : 'u' = short' := (List.cons.inj (List.cons.inj h).2).1
    exact (shortEscape?_ne_some_u hshort').elim
  · exact (hne' (List.cons.inj h).1.symm).elim
  · exact codeEscape_append_inj h

/-- Between quotes no character begins with a quote. -/
theorem escape_append_ne_quote : escape left ++ rest ≠ '"' :: rest' := by
  intro h
  obtain ⟨_, -, hleft⟩ | ⟨hne, -, hleft⟩ | hleft := escape_cases left <;> rw [hleft] at h
  · cases h
  · exact hne (List.cons.inj h).1
  · cases h

/-! ## Texts -/

/-- Where a quoted row of characters ends, and which row it is, can be read off. -/
theorem flatMap_escape_append_inj {row row' : List Char}
    (h : row.flatMap escape ++ '"' :: rest = row'.flatMap escape ++ '"' :: rest') :
    row = row' ∧ rest = rest' := by
  induction row generalizing row' with
  | nil =>
      cases row' with
      | nil => exact ⟨rfl, (List.cons.inj h).2⟩
      | cons character row' =>
          rw [List.flatMap_cons, List.append_assoc] at h
          exact (escape_append_ne_quote h.symm).elim
  | cons character row ih =>
      cases row' with
      | nil =>
          rw [List.flatMap_cons, List.append_assoc] at h
          exact (escape_append_ne_quote h).elim
      | cons character' row' =>
          rw [List.flatMap_cons, List.flatMap_cons, List.append_assoc, List.append_assoc] at h
          obtain ⟨rfl, hbehind⟩ := escape_append_inj h
          obtain ⟨rfl, hrest⟩ := ih hbehind
          exact ⟨rfl, hrest⟩

theorem toList_quote (text : String) :
    (quote text).toList = '"' :: (text.toList.flatMap escape ++ ['"']) :=
  String.toList_ofList

/-- Where a quotation ends, and which text it quotes, can be read off. -/
theorem quote_append_inj {text text' : String}
    (h : (quote text).toList ++ rest = (quote text').toList ++ rest') :
    text = text' ∧ rest = rest' := by
  rw [toList_quote, toList_quote, List.cons_append, List.cons_append, List.append_assoc,
    List.append_assoc] at h
  obtain ⟨hrow, hrest⟩ := flatMap_escape_append_inj (List.cons.inj h).2
  exact ⟨String.toList_inj.mp hrow, hrest⟩

end Script.Text
