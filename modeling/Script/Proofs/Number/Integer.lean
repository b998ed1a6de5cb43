/-
# Integer arithmetic

An operation on integers is the exact one, reduced to the width of the wider operand. Sums,
differences and products wrap, a quotient wraps in one case only, and a remainder never
does: it is smaller than the divisor, so that neither its correction by one divisor nor the
way back to the narrow width can lose anything.
-/

import Mathlib.Data.Int.ModEq
import Script.Number.Basic

namespace Script.Number

/-- A number of an integer kind, with its width in bits and the integer that it is. -/
inductive IsInteger : Nat → Int → Number → Prop
  | int {word : Int32} {value : Int} (h : word.toInt = value) : IsInteger 32 value (.int word)
  | long {word : Int64} {value : Int} (h : word.toInt = value) : IsInteger 64 value (.long word)

/-- A number is the signed integer of a width that is congruent to an exact one. -/
def Reduces (width : Nat) (exact : Int) (result : Number) : Prop :=
  ∃ value, result.IsInteger width value ∧ -2 ^ (width - 1) ≤ value ∧ value < 2 ^ (width - 1) ∧
    value ≡ exact [ZMOD 2 ^ width]

/-- The floored remainder of a division: it is congruent to the dividend, and it lies
between zero and the divisor. -/
def IsFlooredRemainder (dividend divisor rest : Int) : Prop :=
  rest ≡ dividend [ZMOD divisor] ∧ (0 ≤ rest ∧ rest < divisor ∨ divisor < rest ∧ rest ≤ 0)

/-- Two integers at a common width. -/
inductive Pair.IsIntegers : Nat → Int → Int → Pair → Prop
  | ints {l r : Int32} {a b : Int} (hl : l.toInt = a) (hr : r.toInt = b) :
      IsIntegers 32 a b (.ints l r)
  | longs {l r : Int64} {a b : Int} (hl : l.toInt = a) (hr : r.toInt = b) :
      IsIntegers 64 a b (.longs l r)

variable {width first second : Nat} {exact value a b rest : Int} {left right result : Number}

/-! ## Numbers of one width -/

/-- At one width an integer is one number. -/
theorem IsInteger.unique (h : left.IsInteger width value) (h' : right.IsInteger width value) :
    left = right := by
  cases h with
  | int hleft =>
      cases h' with
      | int hright => rw [Int32.toInt_inj.mp (hleft.trans hright.symm)]
  | long hleft =>
      cases h' with
      | long hright => rw [Int64.toInt_inj.mp (hleft.trans hright.symm)]

/-- Among the signed integers of a width, one is congruent to a given integer. -/
theorem bmod_eq_iff_modEq (hwidth : 0 < width) :
    exact.bmod (2 ^ width) = value ↔
      -2 ^ (width - 1) ≤ value ∧ value < 2 ^ (width - 1) ∧ value ≡ exact [ZMOD 2 ^ width] := by
  obtain ⟨bits, rfl⟩ := Nat.exists_eq_succ_of_ne_zero (Nat.ne_of_gt hwidth)
  have htwice : ((2 ^ (bits + 1) : Nat) : Int) = 2 * 2 ^ bits := by
    rw [Nat.pow_succ', Nat.cast_mul, Nat.cast_pow, Nat.cast_two]
  rw [Nat.succ_eq_add_one, Nat.add_sub_cancel, Int.modEq_comm, Int.modEq_iff_dvd,
    Int.bmod_eq_iff (Nat.two_pow_pos _), htwice, pow_succ']
  generalize (2 : Int) ^ bits = half
  omega

theorem Reduces.unique (h : left.Reduces width exact) (h' : right.Reduces width exact) :
    left = right := by
  obtain ⟨value, hvalue, hrange⟩ := h
  obtain ⟨other, hother, hrange'⟩ := h'
  have hwidth : 0 < width := by cases hvalue <;> decide
  rw [← bmod_eq_iff_modEq hwidth] at hrange hrange'
  subst hrange
  subst hrange'
  exact hvalue.unique hother

theorem Reduces.eq_iff (h : left.Reduces width exact) :
    left = result ↔ result.Reduces width exact :=
  ⟨fun heq => heq ▸ h, h.unique⟩

theorem reduces_int {word : Int32} (h : word.toInt = exact.bmod (2 ^ 32)) :
    (Number.int word).Reduces 32 exact :=
  ⟨_, .int h, (bmod_eq_iff_modEq (by decide)).mp rfl⟩

theorem reduces_long {word : Int64} (h : word.toInt = exact.bmod (2 ^ 64)) :
    (Number.long word).Reduces 64 exact :=
  ⟨_, .long h, (bmod_eq_iff_modEq (by decide)).mp rfl⟩

/-- Integers are brought to the wider of their widths without a change. -/
theorem isIntegers_promote (hleft : left.IsInteger first a) (hright : right.IsInteger second b) :
    (promote left right).IsIntegers (max first second) a b := by
  cases hleft with
  | int hl =>
      cases hright with
      | int hr => exact .ints hl hr
      | long hr => exact .longs ((Int32.toInt_toInt64 _).trans hl) hr
  | long hl =>
      cases hright with
      | int hr => exact .longs hl ((Int32.toInt_toInt64 _).trans hr)
      | long hr => exact .longs hl hr

/-! ## Sums, differences, products and opposites -/

/-- An operation that is the exact one at each width, up to that width. -/
theorem reduces_operation {pair : Pair} (h : pair.IsIntegers width a b)
    {operation : Int → Int → Int} {narrow : Int32 → Int32 → Int32}
    {wide : Int64 → Int64 → Int64} {inexact : Float → Float → Float}
    (hnarrow : ∀ l r, (narrow l r).toInt = (operation l.toInt r.toInt).bmod (2 ^ 32))
    (hwide : ∀ l r, (wide l r).toInt = (operation l.toInt r.toInt).bmod (2 ^ 64)) :
    Reduces width (operation a b)
      (match pair with
      | .ints l r => int (narrow l r)
      | .longs l r => long (wide l r)
      | .doubles l r => double (inexact l r)) := by
  cases h with
  | ints hl hr =>
      subst hl hr
      exact reduces_int (hnarrow _ _)
  | longs hl hr =>
      subst hl hr
      exact reduces_long (hwide _ _)

theorem reduces_add (h : (promote left right).IsIntegers width a b) :
    (left.add right).Reduces width (a + b) :=
  reduces_operation h Int32.toInt_add Int64.toInt_add

theorem reduces_sub (h : (promote left right).IsIntegers width a b) :
    (left.sub right).Reduces width (a - b) :=
  reduces_operation h Int32.toInt_sub Int64.toInt_sub

theorem reduces_mul (h : (promote left right).IsIntegers width a b) :
    (left.mul right).Reduces width (a * b) :=
  reduces_operation h Int32.toInt_mul Int64.toInt_mul

theorem reduces_neg (h : left.IsInteger width a) : left.neg.Reduces width (-a) := by
  cases h with
  | int hword =>
      subst hword
      exact reduces_int (Int32.toInt_neg _)
  | long hword =>
      subst hword
      exact reduces_long (Int64.toInt_neg _)

/-! ## Quotients and remainders -/

/-- An operation that refuses the divisor zero and gives what it should for all others. -/
theorem refuses_zero {pair : Pair} (h : pair.IsIntegers width a b)
    {narrow : Int32 → Int32 → Int32} {wide : Int64 → Int64 → Int64}
    {inexact : Float → Float → Float} {Gives : Nat → Int → Int → Number → Prop}
    (hnarrow : ∀ l r, r.toInt ≠ 0 → Gives 32 l.toInt r.toInt (int (narrow l r)))
    (hwide : ∀ l r, r.toInt ≠ 0 → Gives 64 l.toInt r.toInt (long (wide l r)))
    {outcome : Except ArithmeticError Number}
    (houtcome : outcome =
      match pair with
      | .ints l r => if r = 0 then .error .divisionByZero else .ok (int (narrow l r))
      | .longs l r => if r = 0 then .error .divisionByZero else .ok (long (wide l r))
      | .doubles l r => .ok (double (inexact l r))) :
    b = 0 ∧ outcome = .error .divisionByZero ∨
      b ≠ 0 ∧ ∃ result, outcome = .ok result ∧ Gives width a b result := by
  cases h with
  | @ints l r _ _ hl hr =>
      subst hl hr houtcome
      by_cases hzero : r = 0
      · exact .inl ⟨by rw [hzero]; rfl, if_pos hzero⟩
      · have hdivisor : r.toInt ≠ 0 := fun h => hzero (Int32.toInt_inj.mp h)
        exact .inr ⟨hdivisor, _, if_neg hzero, hnarrow l r hdivisor⟩
  | @longs l r _ _ hl hr =>
      subst hl hr houtcome
      by_cases hzero : r = 0
      · exact .inl ⟨by rw [hzero]; rfl, if_pos hzero⟩
      · have hdivisor : r.toInt ≠ 0 := fun h => hzero (Int64.toInt_inj.mp h)
        exact .inr ⟨hdivisor, _, if_neg hzero, hwide l r hdivisor⟩

/-- An outcome that is an error for the divisor zero, and otherwise a number that is known. -/
theorem outcome_iff {outcome : Except ArithmeticError Number} {Gives : Number → Prop}
    (hunique : ∀ {result other}, Gives result → Gives other → result = other)
    (h : b = 0 ∧ outcome = .error .divisionByZero ∨
      b ≠ 0 ∧ ∃ result, outcome = .ok result ∧ Gives result) :
    (outcome = .error .divisionByZero ↔ b = 0) ∧
      ∀ result, outcome = .ok result ↔ b ≠ 0 ∧ Gives result := by
  obtain ⟨hzero, rfl⟩ | ⟨hne, number, rfl, hgives⟩ := h
  · simp [hzero]
  · refine ⟨by simp [hne], fun result => ?_⟩
    rw [Except.ok.injEq]
    exact ⟨fun heq => ⟨hne, heq ▸ hgives⟩, fun h => hunique hgives h.2⟩

/-- The least integer divided by minus one. Only this quotient is too large for the width. -/
def IsOverflowing (width : Nat) (dividend divisor : Int) : Prop :=
  dividend = -2 ^ (width - 1) ∧ divisor = -1

/-- A quotient of a width: the exact one is truncated and reduced, which changes it in one
case only. -/
def IsQuotient (width : Nat) (dividend divisor : Int) (result : Number) : Prop :=
  result.Reduces width (dividend.tdiv divisor) ∧
    (result.IsInteger width (dividend.tdiv divisor) ↔ ¬IsOverflowing width dividend divisor)

theorem IsQuotient.unique (h : IsQuotient width a b left) (h' : IsQuotient width a b right) :
    left = right :=
  Reduces.unique h.1 h'.1

theorem isQuotient_int (l r : Int32) : IsQuotient 32 l.toInt r.toInt (int (l / r)) := by
  refine ⟨reduces_int (Int32.toInt_div l r), ?_, ?_⟩
  · rintro (h | _) ⟨hl, hr⟩
    rw [Int32.toInt_div, hl, hr] at h
    exact absurd h (by decide)
  · intro h
    by_cases hl : l = Int32.minValue
    · refine .int (Int32.toInt_div_of_ne_right l r fun hr => h ?_)
      rw [hl, hr]
      exact ⟨rfl, rfl⟩
    · exact .int (Int32.toInt_div_of_ne_left l r hl)

theorem isQuotient_long (l r : Int64) : IsQuotient 64 l.toInt r.toInt (long (l / r)) := by
  refine ⟨reduces_long (Int64.toInt_div l r), ?_, ?_⟩
  · rintro (_ | h) ⟨hl, hr⟩
    rw [Int64.toInt_div, hl, hr] at h
    exact absurd h (by decide)
  · intro h
    by_cases hl : l = Int64.minValue
    · refine .long (Int64.toInt_div_of_ne_right l r fun hr => h ?_)
      rw [hl, hr]
      exact ⟨rfl, rfl⟩
    · exact .long (Int64.toInt_div_of_ne_left l r hl)

/-- Division refuses zero and gives the quotient of all others. -/
theorem div_iff (h : (promote left right).IsIntegers width a b) :
    (left.div right = .error .divisionByZero ↔ b = 0) ∧
      ∀ result, left.div right = .ok result ↔ b ≠ 0 ∧ IsQuotient width a b result :=
  outcome_iff IsQuotient.unique
    (refuses_zero h (fun l r _ => isQuotient_int l r) (fun l r _ => isQuotient_long l r) rfl)

/-- There is only one floored remainder. -/
theorem IsFlooredRemainder.unique {other : Int} (h : IsFlooredRemainder a b rest)
    (h' : IsFlooredRemainder a b other) : rest = other := by
  obtain ⟨hmod, hrange⟩ := h
  obtain ⟨hmod', hrange'⟩ := h'
  have hdvd : b ∣ other - rest := (hmod.trans hmod'.symm).dvd
  have hzero := Int.eq_zero_of_dvd_of_natAbs_lt_natAbs hdvd (by omega)
  omega

theorem natAbs_toInt_mod_lt {l r : Int64} (hr : r.toInt ≠ 0) :
    (l % r).toInt.natAbs < r.toInt.natAbs := by
  rw [Int64.toInt_mod, Int.natAbs_tmod]
  exact Nat.mod_lt _ (Int.natAbs_pos.mpr hr)

theorem lt_zero_iff {word : Int64} : word < 0 ↔ word.toInt < 0 := by
  rw [Int64.lt_iff_toInt_lt, Int64.toInt_zero]

/-- A remainder and a divisor on the two sides of zero have a sum. -/
theorem toInt_mod_add {l r : Int64} (hr : r.toInt ≠ 0)
    (hsides : decide (l % r < 0) ≠ decide (r < 0)) :
    (l % r + r).toInt = (l % r).toInt + r.toInt := by
  have hsmaller := natAbs_toInt_mod_lt (l := l) hr
  have hlower := r.le_toInt
  have hupper := r.toInt_lt
  rw [ne_eq, decide_eq_decide, lt_zero_iff, lt_zero_iff] at hsides
  rw [Int64.toInt_add]
  exact Int.bmod_eq_of_le (by omega) (by omega)

/-- The truncated remainder, moved by one divisor where it has to be, is the floored one. -/
theorem isFlooredRemainder_floorRem {l r : Int64} (hr : r.toInt ≠ 0) :
    IsFlooredRemainder l.toInt r.toInt (floorRem l r).toInt := by
  have hsmaller := natAbs_toInt_mod_lt (l := l) hr
  have hmod : (l % r).toInt ≡ l.toInt [ZMOD r.toInt] := by
    rw [Int64.toInt_mod, Int.modEq_iff_dvd]
    exact Int.dvd_self_sub_tmod
  rw [floorRem]
  split
  · next hmoves =>
    rw [Bool.and_eq_true, bne_iff_ne, bne_iff_ne] at hmoves
    obtain ⟨hrest, hsides⟩ := hmoves
    -- A rest of zero stays as it is: its sum would be the divisor itself.
    rw [toInt_mod_add hr hsides]
    rw [← Int64.toInt_inj.ne, Int64.toInt_zero] at hrest
    rw [ne_eq, decide_eq_decide, lt_zero_iff, lt_zero_iff] at hsides
    exact ⟨Int.add_modEq_right.trans hmod, by omega⟩
  · next hstays =>
    rw [Bool.and_eq_true, bne_iff_ne, bne_iff_ne, not_and_or, not_not, not_not, decide_eq_decide,
      lt_zero_iff, lt_zero_iff, ← Int64.toInt_inj, Int64.toInt_zero] at hstays
    exact ⟨hmod, by omega⟩

/-- What makes a remainder at the greater width right: its first step is the exact truncated
remainder, the correction by the divisor has no overflow, and the result is not too large
for the narrow width if the divisor is not. -/
structure RemainderSteps (l r : Int64) : Prop where
  truncated : (l % r).toInt = l.toInt.tmod r.toInt
  corrected : decide (l % r < 0) ≠ decide (r < 0) →
    (l % r + r).toInt = (l % r).toInt + r.toInt
  narrowed : -2 ^ 31 ≤ r.toInt → r.toInt < 2 ^ 31 →
    (floorRem l r).toInt32.toInt = (floorRem l r).toInt

theorem remainderSteps {l r : Int64} (hr : r.toInt ≠ 0) : RemainderSteps l r := by
  refine ⟨Int64.toInt_mod l r, toInt_mod_add hr, fun hlower hupper => ?_⟩
  obtain ⟨-, hrange⟩ := isFlooredRemainder_floorRem (l := l) hr
  rw [Int64.toInt_toInt32]
  exact Int.bmod_eq_of_le (by omega) (by omega)

/-- A remainder of a width: the number is the floored one. -/
def IsRemainder (width : Nat) (dividend divisor : Int) (result : Number) : Prop :=
  ∃ rest, result.IsInteger width rest ∧ IsFlooredRemainder dividend divisor rest

theorem IsRemainder.unique (h : IsRemainder width a b left) (h' : IsRemainder width a b right) :
    left = right := by
  obtain ⟨rest, hrest, hfloored⟩ := h
  obtain ⟨other, hother, hfloored'⟩ := h'
  rw [hfloored'.unique hfloored] at hother
  exact hrest.unique hother

theorem isRemainder_long {l r : Int64} (hr : r.toInt ≠ 0) :
    IsRemainder 64 l.toInt r.toInt (long (floorRem l r)) :=
  ⟨_, .long rfl, isFlooredRemainder_floorRem hr⟩

theorem isRemainder_int {l r : Int32} (hr : r.toInt ≠ 0) :
    IsRemainder 32 l.toInt r.toInt (int (floorRem l.toInt64 r.toInt64).toInt32) := by
  rw [← r.toInt_toInt64] at hr ⊢
  rw [← l.toInt_toInt64]
  refine ⟨_, .int ((remainderSteps hr).narrowed ?_ ?_), isFlooredRemainder_floorRem hr⟩
  · rw [Int32.toInt_toInt64]
    exact r.le_toInt
  · rw [Int32.toInt_toInt64]
    exact r.toInt_lt

/-- Division with remainder refuses zero and gives the remainder of all others. -/
theorem rem_iff (h : (promote left right).IsIntegers width a b) :
    (left.rem right = .error .divisionByZero ↔ b = 0) ∧
      ∀ result, left.rem right = .ok result ↔ b ≠ 0 ∧ IsRemainder width a b result :=
  outcome_iff IsRemainder.unique
    (refuses_zero h (fun _ _ => isRemainder_int) (fun _ _ => isRemainder_long) rfl)

/-! ## The order -/

theorem order_eq_compare (h : (promote left right).IsIntegers width a b) :
    left.order right = some (compare a b) := by
  rw [order]
  generalize promote left right = pair at h
  cases h with
  | ints hl hr =>
      subst hl hr
      simp only [compare, compareOfLessAndEq, Int32.lt_iff_toInt_lt, ← Int32.toInt_inj]
  | longs hl hr =>
      subst hl hr
      simp only [compare, compareOfLessAndEq, Int64.lt_iff_toInt_lt, ← Int64.toInt_inj]

/-! ## The laws -/

/-- What arithmetic is for two integers, of widths that may differ. -/
structure ExactArithmetic (left right : Number) (first second : Nat) (a b : Int) : Prop where
  /-- Sums, differences and products are the exact ones, reduced to the greater width. -/
  add : ∀ result, left.add right = result ↔ result.Reduces (max first second) (a + b)
  sub : ∀ result, left.sub right = result ↔ result.Reduces (max first second) (a - b)
  mul : ∀ result, left.mul right = result ↔ result.Reduces (max first second) (a * b)
  /-- The opposite number is reduced to the width of the number itself. -/
  neg : ∀ result, left.neg = result ↔ result.Reduces first (-a)
  /-- Division fails for the divisor zero, and only for that one. -/
  div_fails : left.div right = .error .divisionByZero ↔ b = 0
  /-- Otherwise the quotient is truncated toward zero and reduced. -/
  div : ∀ result, left.div right = .ok result ↔
    b ≠ 0 ∧ IsQuotient (max first second) a b result
  /-- A remainder fails for the divisor zero, and only for that one. -/
  rem_fails : left.rem right = .error .divisionByZero ↔ b = 0
  /-- Otherwise it is the floored one, exactly. -/
  rem : ∀ result, left.rem right = .ok result ↔
    b ≠ 0 ∧ IsRemainder (max first second) a b result
  /-- No step on the way to a remainder loses anything. -/
  rem_steps : b ≠ 0 → RemainderSteps (.ofInt a) (.ofInt b)
  /-- The order is that of the exact integers. -/
  order : left.order right = some (compare a b)

theorem toInt_ofInt_of_isInteger (h : left.IsInteger width value) :
    (Int64.ofInt value).toInt = value := by
  cases h with
  | int hword =>
      subst hword
      rw [Int64.ofInt_int32ToInt, Int32.toInt_toInt64]
  | long hword =>
      subst hword
      rw [Int64.ofInt_toInt]

/-- Integer arithmetic is exact up to the width of the wider operand: operations wrap, but
no remainder does, and numbers have the order of their integers. -/
theorem exactArithmetic_of_isInteger (hleft : left.IsInteger first a)
    (hright : right.IsInteger second b) : ExactArithmetic left right first second a b := by
  have hpair := isIntegers_promote hleft hright
  constructor
  case add => exact fun result => (reduces_add hpair).eq_iff
  case sub => exact fun result => (reduces_sub hpair).eq_iff
  case mul => exact fun result => (reduces_mul hpair).eq_iff
  case neg => exact fun result => (reduces_neg hleft).eq_iff
  case div_fails => exact (div_iff hpair).1
  case div => exact (div_iff hpair).2
  case rem_fails => exact (rem_iff hpair).1
  case rem => exact (rem_iff hpair).2
  case rem_steps =>
    intro hne
    refine remainderSteps ?_
    rwa [toInt_ofInt_of_isInteger hright]
  case order => exact order_eq_compare hpair

/-- The least integer divided by minus one, at the narrow width and against a wide divisor. -/
theorem exactArithmetic_of_isInteger_of_least :
    (int (-2147483648)).IsInteger 32 (-2147483648) ∧ (int (-1)).IsInteger 32 (-1) ∧
      (long (-1)).IsInteger 64 (-1) ∧
      ExactArithmetic (int (-2147483648)) (int (-1)) 32 32 (-2147483648) (-1) ∧
      ExactArithmetic (int (-2147483648)) (long (-1)) 32 64 (-2147483648) (-1) := by
  have hleast : (int (-2147483648)).IsInteger 32 (-2147483648) := .int rfl
  have hnarrow : (int (-1)).IsInteger 32 (-1) := .int rfl
  have hwide : (long (-1)).IsInteger 64 (-1) := .long rfl
  exact ⟨hleast, hnarrow, hwide, exactArithmetic_of_isInteger hleast hnarrow,
    exactArithmetic_of_isInteger hleast hwide⟩

end Script.Number
