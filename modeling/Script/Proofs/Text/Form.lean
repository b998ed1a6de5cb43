/-
# Bracketed text is read in one way only

A form is a number, a quotation or a word, or a row of forms in parentheses with spaces
between them. The first character of a form tells which of these it is: a word has no space,
quote or parenthesis in it and is not written as an integer is. What may stand behind a form,
a space, a closing parenthesis or nothing, ends it. So a text says of which form it is.
-/

import Script.Proofs.Number.Digits
import Script.Proofs.Text.Quoted

namespace Script

/-- A text in brackets, or a part of one. -/
inductive Form where
  | number (value : Int32)
  | quoted (text : String)
  | word (text : String)
  | row (first : Form) (others : List Form)

namespace Form

variable {left right : Form} {rest rest' : List Char}

mutual

/-- A form as it is written. -/
def text : Form → List Char
  | number value => (toString value.toInt).toList
  | quoted text => (Text.quote text).toList
  | word text => text.toList
  | row first others => '(' :: (first.text ++ (textEach others ++ [')']))

/-- Forms in order, each behind a space. -/
def textEach : List Form → List Char
  | [] => []
  | form :: others => ' ' :: (form.text ++ textEach others)

end

@[simp] theorem text_word (text : String) : (word text).text = text.toList := rfl

@[simp] theorem text_row (first : Form) (others : List Form) :
    (row first others).text = '(' :: (first.text ++ (textEach others ++ [')'])) := rfl

@[simp] theorem textEach_nil : textEach [] = [] := rfl

@[simp] theorem textEach_cons (form : Form) (others : List Form) :
    textEach (form :: others) = ' ' :: (form.text ++ textEach others) := rfl

@[simp] theorem textEach_append (front behind : List Form) :
    textEach (front ++ behind) = textEach front ++ textEach behind := by
  induction front with
  | nil => rfl
  | cons form front ih =>
      rw [List.cons_append, textEach_cons, textEach_cons, ih, List.cons_append, List.append_assoc]

/-! ## Words -/

/-- Whether a character may stand in a word or in an integer. -/
def isAtomic (character : Char) : Bool :=
  !(character = ' ' || character = '(' || character = ')' || character = '"')

/-- A text that is neither a number nor a quotation, and no row in parentheses. -/
structure IsWord (text : List Char) : Prop where
  ne_nil : text ≠ []
  atomic : ∀ character ∈ text, isAtomic character = true
  ne_integer : ∀ value : Int, (toString value).toList ≠ text

/-- A character of a kind to which no space, quote or parenthesis belongs. -/
theorem isAtomic_of_kind {p : Char → Bool} {character : Char}
    (hstops : [' ', '(', ')', '"'].any p = false) (h : p character = true) :
    isAtomic character = true := by
  have hne {stop : Char} (hstop : stop ∈ [' ', '(', ')', '"']) : character ≠ stop := by
    rintro rfl
    exact List.any_eq_false.mp hstops character hstop h
  simp [isAtomic, hne]

/-- The text of an integer is not empty, and parentheses, spaces and quotes are not in it. -/
theorem atomic_integer (value : Int) :
    (toString value).toList ≠ [] ∧
      ∀ character ∈ (toString value).toList, isAtomic character = true :=
  ⟨Number.toList_toString_ne_nil value,
    Number.forall_mem_toString rfl (fun _ => isAtomic_of_kind rfl) value⟩

/-- A text is a word if it does not begin with a digit, nor with a sign before something
else. -/
theorem isWord_of_first {first : Char} {others : List Char}
    (hatomic : ∀ character ∈ first :: others, isAtomic character = true)
    (hdigit : first.isDigit = false) (hsign : first = '-' → others = []) :
    IsWord (first :: others) := by
  refine ⟨List.cons_ne_nil first others, hatomic, fun value hvalue => ?_⟩
  obtain ⟨sign, digits, htext, hsigns, hne, hdigits⟩ := Number.exists_digits value
  obtain ⟨digit, digits, rfl⟩ := List.exists_cons_of_ne_nil hne
  rw [htext] at hvalue
  obtain rfl | rfl := hsigns
  · obtain ⟨rfl, -⟩ := List.cons.inj hvalue
    rw [hdigits digit List.mem_cons_self] at hdigit
    cases hdigit
  · obtain ⟨rfl, hothers⟩ := List.cons.inj hvalue
    rw [hsign rfl] at hothers
    cases hothers

/-- Whether a text can be seen to be a word. -/
def looksLikeWord : List Char → Bool
  | [] => false
  | first :: others =>
    (first :: others).all isAtomic && !first.isDigit && (first != '-' || others.isEmpty)

theorem isWord_of_looksLikeWord {text : List Char} (h : looksLikeWord text = true) :
    IsWord text := by
  cases text with
  | nil => cases h
  | cons first others =>
      simp only [looksLikeWord, Bool.and_eq_true, Bool.not_eq_true', Bool.or_eq_true, bne_iff_ne,
        List.isEmpty_iff, List.all_eq_true] at h
      obtain ⟨⟨hatomic, hdigit⟩, hsign⟩ := h
      exact isWord_of_first hatomic hdigit fun hfirst => hsign.resolve_left (not_not_intro hfirst)

/-! ## Reading a form -/

mutual

/-- Every word in a form is one. -/
def Proper : Form → Prop
  | number _ | quoted _ => True
  | word text => IsWord text.toList
  | row first others => first.Proper ∧ ProperEach others

/-- Every word in some forms is one. -/
def ProperEach : List Form → Prop
  | [] => True
  | form :: others => form.Proper ∧ ProperEach others

end

theorem properEach_iff {forms : List Form} :
    ProperEach forms ↔ ∀ form ∈ forms, form.Proper := by
  induction forms with
  | nil => simp [ProperEach]
  | cons form forms ih => rw [ProperEach, ih, List.forall_mem_cons]

/-- What may stand behind a form. -/
def Ends (rest : List Char) : Prop := ∀ character ∈ rest.head?, character = ' ' ∨ character = ')'

theorem Ends.not_isAtomic (h : Ends rest) :
    ∀ character ∈ rest.head?, isAtomic character = false := by
  intro character hcharacter
  obtain rfl | rfl := h character hcharacter <;> rfl

theorem ends_textEach (forms : List Form) : Ends (textEach forms ++ ')' :: rest) := by
  cases forms with
  | nil =>
      rintro _ ⟨⟩
      exact .inr rfl
  | cons form forms =>
      rintro _ ⟨⟩
      exact .inl rfl

/-- A number or a word. -/
def IsAtom (form : Form) : Prop := (∃ value, form = number value) ∨ ∃ text, form = word text

theorem cases_isAtom (form : Form) :
    form.IsAtom ∨ (∃ text, form = quoted text) ∨ ∃ first others, form = row first others := by
  cases form with
  | number value => exact .inl (.inl ⟨value, rfl⟩)
  | quoted text => exact .inr (.inl ⟨text, rfl⟩)
  | word text => exact .inl (.inr ⟨text, rfl⟩)
  | row first others => exact .inr (.inr ⟨first, others, rfl⟩)

theorem IsAtom.atomic (h : left.IsAtom) (hproper : left.Proper) :
    left.text ≠ [] ∧ ∀ character ∈ left.text, isAtomic character = true := by
  obtain ⟨value, rfl⟩ | ⟨text, rfl⟩ := h
  · exact atomic_integer value.toInt
  · have hword : IsWord text.toList := hproper
    exact ⟨hword.ne_nil, hword.atomic⟩

/-- A number or a word begins with no quote and no parenthesis. -/
theorem IsAtom.append_ne (h : left.IsAtom) (hproper : left.Proper) {first : Char}
    (hfirst : isAtomic first = false) : left.text ++ rest ≠ first :: rest' := by
  obtain ⟨hne, hatomic⟩ := h.atomic hproper
  obtain ⟨character, others, htext⟩ := List.exists_cons_of_ne_nil hne
  rw [htext] at hatomic ⊢
  rintro heq
  obtain ⟨rfl, -⟩ := List.cons.inj heq
  rw [hatomic character List.mem_cons_self] at hfirst
  cases hfirst

/-- Numbers and words are read once: they end in front of what may stand behind them. -/
theorem IsAtom.append_inj (hleft : left.IsAtom) (hright : right.IsAtom) (hproper : left.Proper)
    (hproper' : right.Proper) (hrest : Ends rest) (hrest' : Ends rest')
    (h : left.text ++ rest = right.text ++ rest') : left = right ∧ rest = rest' := by
  obtain ⟨htext, hbehind⟩ := Text.eq_and_eq_of_run_append_eq (hleft.atomic hproper).2
    (hright.atomic hproper').2 hrest.not_isAtomic hrest'.not_isAtomic h
  refine ⟨?_, hbehind⟩
  obtain ⟨value, rfl⟩ | ⟨word, rfl⟩ := hleft <;> obtain ⟨value', rfl⟩ | ⟨word', rfl⟩ := hright
  · rw [number.injEq]
    refine Int32.toInt_inj.mp (Int.repr_inj.mp ?_)
    rw [← Int.toString_eq_repr, ← Int.toString_eq_repr]
    exact String.toList_inj.mp htext
  · have hword : IsWord word'.toList := hproper'
    exact (hword.ne_integer value.toInt htext).elim
  · have hword : IsWord word.toList := hproper
    exact (hword.ne_integer value'.toInt htext.symm).elim
  · exact congrArg Form.word (String.toList_inj.mp htext)

/-- What is no row is read once. -/
theorem append_inj_of_ne_row (hrow : ∀ first others, left ≠ row first others)
    (hproper : left.Proper) (hproper' : right.Proper) (hrest : Ends rest) (hrest' : Ends rest')
    (h : left.text ++ rest = right.text ++ rest') : left = right ∧ rest = rest' := by
  obtain hleft | ⟨quotation, rfl⟩ | ⟨first, others, rfl⟩ := left.cases_isAtom
  · obtain hright | ⟨quotation', rfl⟩ | ⟨first', others', rfl⟩ := right.cases_isAtom
    · exact hleft.append_inj hright hproper hproper' hrest hrest' h
    · rw [text, Text.toList_quote] at h
      exact (hleft.append_ne hproper rfl h).elim
    · exact (hleft.append_ne hproper rfl h).elim
  · obtain hright | ⟨quotation', rfl⟩ | ⟨first', others', rfl⟩ := right.cases_isAtom
    · rw [text, Text.toList_quote] at h
      exact (hright.append_ne hproper' rfl h.symm).elim
    · obtain ⟨rfl, hbehind⟩ := Text.quote_append_inj h
      exact ⟨rfl, hbehind⟩
    · rw [text, text, Text.toList_quote] at h
      cases h
  · exact (hrow first others rfl).elim

mutual

/-- Where the text of a form ends, and which form it is, can be read off. -/
theorem text_append_inj : ∀ {left right : Form} {rest rest' : List Char}, left.Proper →
    right.Proper → Ends rest → Ends rest' → left.text ++ rest = right.text ++ rest' →
    left = right ∧ rest = rest'
  | row first others, right, rest, rest', hleft, hright, hrest, hrest', h => by
    cases right with
    | row first' others' =>
        rw [text, text, List.cons_append, List.cons_append, List.append_assoc, List.append_assoc,
          List.append_assoc, List.append_assoc] at h
        obtain ⟨rfl, hothers⟩ := text_append_inj hleft.1 hright.1 (ends_textEach others)
          (ends_textEach others') (List.cons.inj h).2
        obtain ⟨rfl, hbehind⟩ := textEach_append_inj hleft.2 hright.2 hothers
        exact ⟨rfl, hbehind⟩
    | _ =>
        have hback := append_inj_of_ne_row (by nofun) hright hleft hrest' hrest h.symm
        exact ⟨hback.1.symm, hback.2.symm⟩
  | number value, right, rest, rest', hleft, hright, hrest, hrest', h =>
    append_inj_of_ne_row (by nofun) hleft hright hrest hrest' h
  | quoted text, right, rest, rest', hleft, hright, hrest, hrest', h =>
    append_inj_of_ne_row (by nofun) hleft hright hrest hrest' h
  | word text, right, rest, rest', hleft, hright, hrest, hrest', h =>
    append_inj_of_ne_row (by nofun) hleft hright hrest hrest' h

theorem textEach_append_inj : ∀ {lefts rights : List Form} {rest rest' : List Char},
    ProperEach lefts → ProperEach rights →
    textEach lefts ++ ')' :: rest = textEach rights ++ ')' :: rest' →
    lefts = rights ∧ rest = rest'
  | [], [], _, _, _, _, h => ⟨rfl, (List.cons.inj h).2⟩
  | [], _ :: _, _, _, _, _, h => by cases h
  | _ :: _, [], _, _, _, _, h => by cases h
  | left :: lefts, right :: rights, rest, rest', hleft, hright, h => by
    rw [textEach, textEach, List.cons_append, List.cons_append, List.append_assoc,
      List.append_assoc] at h
    obtain ⟨rfl, hothers⟩ := text_append_inj hleft.1 hright.1 (ends_textEach lefts)
      (ends_textEach rights) (List.cons.inj h).2
    obtain ⟨rfl, hbehind⟩ := textEach_append_inj hleft.2 hright.2 hothers
    exact ⟨rfl, hbehind⟩

end

/-- Two forms with one text are one form. -/
theorem text_injOn (hleft : left.Proper) (hright : right.Proper) (h : left.text = right.text) :
    left = right := by
  have hends : Ends [] := by
    rintro _ ⟨⟩
  exact (text_append_inj hleft hright hends hends (congrArg (· ++ []) h)).1

end Form

end Script
