/-
# Digits wrap

The value of digits is reduced to 64 bits with every digit and narrowed in the end. Neither
the reductions on the way nor their number matter: what comes out is congruent to the value of
the digits, at the width that was asked for. In the other direction, the text of an integer
is made of digits, which may stand behind a sign.
-/

import Script.Proofs.Number.Integer
import Std.Data.String.ToInt

namespace Script.Number

variable {digits : List Char}

/-- For digits only, the value is what decimal digits stand for. -/
theorem digitsValue_eq (h : ∀ digit ∈ digits, digit.isDigit = true) :
    digitsValue digits = Nat.ofDigitChars 10 digits 0 := by
  rw [digitsValue, List.filter_eq_self.mpr h, Nat.ofDigitChars]
  simp only [Nat.mul_comm]

/-- One more digit: to reduce before it or behind it is the same. -/
theorem ofNat_mul_add (value digit : Nat) :
    UInt64.ofNat (value * 10 + digit) = UInt64.ofNat value * 10 + digit.toUInt64 := by
  rw [UInt64.ofNat_add, UInt64.ofNat_mul]
  rfl

theorem foldl_wraps (digits : List Char) (value : Nat) :
    digits.foldl (fun value digit => value * 10 + (digit.toNat - '0'.toNat).toUInt64)
        (UInt64.ofNat value) =
      UInt64.ofNat (digits.foldl (fun value digit => value * 10 + (digit.toNat - '0'.toNat))
        value) := by
  induction digits generalizing value with
  | nil => rfl
  | cons digit digits ih => rw [List.foldl_cons, List.foldl_cons, ← ofNat_mul_add, ih]

/-- The value that is reduced with every digit is the value of the digits, reduced once. -/
theorem wrappedValue_eq (digits : List Char) :
    wrappedValue digits = UInt64.ofNat (digitsValue digits) :=
  foldl_wraps (digits.filter Char.isDigit) 0

/-- Narrowing a reduced value is reducing to the narrow width. -/
theorem ofDigits_eq (digits : List Char) (long : Bool) :
    ofDigits digits long =
      if long then .long (Int64.ofNat (digitsValue digits))
      else .int (Int32.ofNat (digitsValue digits)) := by
  rw [ofDigits, wrappedValue_eq, UInt64.toInt64_ofNat', UInt64.toUInt32_ofNat',
    UInt32.toInt32_ofNat']

theorem reduces_ofDigits_int (digits : List Char) :
    (ofDigits digits false).Reduces 32 (digitsValue digits) := by
  rw [ofDigits_eq]
  exact reduces_int (Int32.toInt_ofNat')

theorem reduces_ofDigits_long (digits : List Char) :
    (ofDigits digits true).Reduces 64 (digitsValue digits) := by
  rw [ofDigits_eq]
  exact reduces_long (Int64.toInt_ofNat')

/-! ## The text of an integer -/

/-- An integer is written with digits, which may stand behind a sign. -/
theorem exists_digits (value : Int) :
    ∃ sign digits, (toString value).toList = sign ++ digits ∧ (sign = [] ∨ sign = ['-']) ∧
      digits ≠ [] ∧ ∀ digit ∈ digits, digit.isDigit = true := by
  have hdigits (n : Nat) : n.repr.toList ≠ [] ∧ ∀ digit ∈ n.repr.toList, digit.isDigit = true := by
    rw [Nat.toList_repr]
    exact ⟨Nat.toDigits_ne_nil, fun digit => Nat.isDigit_of_mem_toDigits (by decide) (by decide)⟩
  rw [Int.toString_eq_repr, Int.repr_eq_if]
  split
  · exact ⟨[], _, rfl, .inl rfl, hdigits _⟩
  · exact ⟨['-'], _, String.toList_append, .inr rfl, hdigits _⟩

theorem toList_toString_ne_nil (value : Int) : (toString value).toList ≠ [] := by
  obtain ⟨sign, digits, htext, -, hne, -⟩ := exists_digits value
  exact htext ▸ List.append_ne_nil_of_right_ne_nil sign hne

/-- What is true of the sign and of digits is true of all that an integer is written with. -/
theorem forall_mem_toString {p : Char → Bool} (hsign : p '-' = true)
    (hdigit : ∀ character : Char, character.isDigit = true → p character = true) (value : Int) :
    ∀ character ∈ (toString value).toList, p character = true := by
  obtain ⟨sign, digits, htext, hsigns, -, hdigits⟩ := exists_digits value
  intro character hcharacter
  obtain hin | hin := List.mem_append.mp (htext ▸ hcharacter)
  · obtain rfl | rfl := hsigns
    · cases hin
    · cases List.mem_singleton.mp hin
      exact hsign
  · exact hdigit character (hdigits character hin)

end Script.Number
