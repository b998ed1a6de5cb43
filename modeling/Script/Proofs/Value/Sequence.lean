/-
# Sequences

Lists are sequences of values, and strings are sequences of characters. Both are indexed,
joined and repeated by the same laws. An index counts from either end and gives nil beyond
both, one sequence joined to another stands behind it, and a repeated sequence begins again
where it ends. Only the size that bounds a repetition differs: it is the number of elements
of a list, but the number of bytes of a string.
-/

import Script.Proofs.Number.Integer
import Script.Value.Operation

namespace Script.Value

variable {α : Type} {heap : Heap} {key other count : Number} {width place length times : Nat}
  {word : Int64} {i n : Int} {items rest taken : List Value}

/-- A kind of value that is a sequence of elements. -/
structure Sequence (α : Type) where
  /-- The value that some elements are together. -/
  value : List α → Value
  /-- The value that an element is on its own. -/
  element : α → Value
  /-- What a repetition bounds. -/
  size : List α → Nat

/-- Lists. -/
def Sequence.lists : Sequence Value := ⟨list, id, List.length⟩

/-- Strings. -/
def Sequence.strings : Sequence Char where
  value characters := string (String.ofList characters)
  element character := string character.toString
  size characters := (String.ofList characters).utf8ByteSize

/-- Whether the elements are so few that an index can denote each of them. No memory holds
more. -/
def Fits (elements : List α) : Prop := elements.length < 2 ^ 63

theorem Fits.of_append {front back : List α} (h : Fits (front ++ back)) :
    Fits front ∧ Fits back := by
  rw [Fits, List.length_append] at h
  rw [Fits, Fits]
  omega

/-- Whether a repetition is refused. -/
def Sequence.TooLarge (sequence : Sequence α) (elements : List α) (times : Int) : Prop :=
  0 < times ∧ 2 ^ 28 < times * sequence.size elements

/-! ## Places -/

/-- A negative index and the length of a sequence are added without overflow. -/
theorem toInt_add_length (hlength : length < 2 ^ 63) (hneg : word < 0) :
    (word + Int64.ofNat length).toInt = word.toInt + length := by
  have hlower := word.le_toInt
  rw [Number.lt_zero_iff] at hneg
  rw [Int64.toInt_add, Int64.toInt_ofNat_of_lt hlength]
  exact Int.bmod_eq_of_le (by omega) (by omega)

/-- An index denotes a place of a sequence if and only if it is the distance of that place
from the beginning, or the opposite of its distance from the end. -/
theorem place?_eq_some_iff (hlength : length < 2 ^ 63) :
    place? length word = some place ↔
      place < length ∧ (word.toInt = place ∨ word.toInt = place - length) := by
  have hwithin (word : Int64) :
      (if 0 ≤ word ∧ word < Int64.ofNat length then some word.toNatClampNeg else none) =
          some place ↔ place < length ∧ word.toInt = place := by
    rw [Option.ite_none_right_eq_some, Option.some.injEq, Int64.toNatClampNeg,
      Int64.le_iff_toInt_le, Int64.lt_iff_toInt_lt, Int64.toInt_zero,
      Int64.toInt_ofNat_of_lt hlength]
    omega
  have hplace : place? length word = _ := if_pos hlength
  rw [hplace, hwithin]
  split
  · next hneg =>
    rw [toInt_add_length hlength hneg]
    rw [Number.lt_zero_iff] at hneg
    omega
  · next hnonneg =>
    rw [Number.lt_zero_iff] at hnonneg
    omega

theorem place?_eq_none (hlength : length < 2 ^ 63)
    (h : word.toInt < -length ∨ length ≤ word.toInt) : place? length word = none := by
  rw [Option.eq_none_iff_forall_ne_some]
  intro place hplace
  rw [place?_eq_some_iff hlength] at hplace
  omega

theorem integer?_of_isInteger (h : key.IsInteger width i) :
    ∃ word, (number key).integer? = some word ∧ word.toInt = i := by
  cases h with
  | int hword => exact ⟨_, rfl, (Int32.toInt_toInt64 _).trans hword⟩
  | long hword => exact ⟨_, rfl, hword⟩

/-! ## Repetitions -/

theorem length_flatten_replicate (times : Nat) (elements : List α) :
    (List.replicate times elements).flatten.length = times * elements.length := by
  rw [List.length_flatten, List.map_replicate, List.sum_replicate_nat]

/-- A place of a repeated sequence lies in one of its rounds. -/
theorem lt_toNat_mul (hplace : place < n * length) : 0 < n.toNat ∧ place < n.toNat * length := by
  have hpos : 0 < n := by
    by_contra hle
    have hzero := Int.mul_nonpos_of_nonpos_of_nonneg (not_lt.mp hle) (Int.natCast_nonneg length)
    omega
  obtain ⟨times, rfl⟩ := Int.eq_ofNat_of_zero_le hpos.le
  rw [Int.toNat_natCast]
  exact_mod_cast And.intro hpos hplace

/-- In a repeated sequence each place holds what the place in the sequence itself does. -/
theorem getElem?_flatten_replicate {elements : List α} (h : place < times * elements.length) :
    (List.replicate times elements).flatten[place]? = elements[place % elements.length]? := by
  induction times generalizing place with
  | zero =>
      rw [Nat.zero_mul] at h
      cases h
  | succ times ih =>
      rw [List.replicate_succ, List.flatten_cons]
      by_cases hfirst : place < elements.length
      · rw [List.getElem?_append_left hfirst, Nat.mod_eq_of_lt hfirst]
      · have hle := Nat.le_of_not_lt hfirst
        rw [Nat.succ_mul] at h
        rw [List.getElem?_append_right hle, ih (by omega), ← Nat.mod_eq_sub_mod hle]

/-- Items that are taken in turn are those of the sequence, repeated as often as needed. -/
theorem takeAround_eq {size : Nat} (h : size ≤ rest.length + times * items.length) :
    takeAround items rest size taken =
      taken.reverse ++ (rest ++ (List.replicate times items).flatten).take size := by
  fun_induction takeAround items rest size taken generalizing times with
  | case1 rest taken => rw [List.take_zero, List.append_nil]
  | case2 item rest size taken ih =>
      rw [List.length_cons] at h
      have hsize : size ≤ rest.length + times * items.length := by omega
      rw [ih hsize, List.reverse_cons, List.append_assoc]
      rfl
  | case3 size taken hitems =>
      rw [hitems, List.length_nil, Nat.mul_zero] at h
      cases h
  | case4 size taken item rest hitems ih =>
      cases times with
      | zero =>
          rw [Nat.zero_mul] at h
          cases h
      | succ times =>
          have hround : [] ++ (List.replicate (times + 1) items).flatten =
              item :: (rest ++ (List.replicate times items).flatten) :=
            congrArg (· ++ (List.replicate times items).flatten) hitems
          have hlength : items.length = rest.length + 1 := by rw [hitems, List.length_cons]
          have hsize : size ≤ rest.length + times * items.length := by
            rw [Nat.succ_mul, List.length_nil] at h
            omega
          rw [← hitems, ih hsize, hround, List.take_succ_cons, List.reverse_cons, List.append_assoc]
          rfl

/-- Items that are taken in turn, up to a multiple of their number, are the items repeated. -/
theorem takeAround_mul_length (items : List Value) (times : Nat) :
    takeAround items items (items.length * times) [] = (List.replicate times items).flatten := by
  have hlength := length_flatten_replicate times items
  have hsize : items.length * times ≤ items.length + times * items.length := by
    rw [Nat.mul_comm]
    exact Nat.le_add_left _ _
  -- One more repetition may be put in front or behind.
  have hround : items ++ (List.replicate times items).flatten =
      (List.replicate times items).flatten ++ items := by
    rw [← List.flatten_cons, ← List.replicate_succ, List.replicate_succ', List.flatten_concat]
  rw [takeAround_eq hsize, hround, List.take_left' (hlength.trans (Nat.mul_comm _ _))]
  rfl

theorem repeat_append_ofList (characters : List Char) (times : Nat) :
    Nat.repeat (· ++ String.ofList characters) times "" =
      String.ofList (List.replicate times characters).flatten := by
  induction times with
  | zero => rfl
  | succ times ih =>
      rw [Nat.repeat, ih, List.replicate_succ', List.flatten_concat, String.ofList_append]

theorem repeatText_ofList (characters : List Char) (times : Nat) :
    repeatText (String.ofList characters) times =
      String.ofList (List.replicate times characters).flatten := by
  rw [repeatText, repeat_append_ofList]
  split
  · next hempty =>
    obtain rfl : characters = [] := by
      simpa using hempty
    rw [List.flatten_replicate_nil]
  · rfl

theorem repeatedSize?_of_le {unit : Nat} (h : unit * times ≤ 2 ^ 28) :
    repeatedSize? unit times = some (unit * times) := by
  have hsize : unit * times < Nat.pow 2 64 := Nat.lt_of_le_of_lt h (by decide)
  rw [repeatedSize?, if_pos hsize]
  exact Option.filter_eq_some_iff.mpr ⟨rfl, decide_eq_true h⟩

theorem repeatedSize?_of_lt {unit : Nat} (h : 2 ^ 28 < unit * times) :
    repeatedSize? unit times = none := by
  rw [repeatedSize?, Option.filter_eq_none_iff]
  intro size hsome
  obtain ⟨-, hsome⟩ := Option.ite_none_right_eq_some.mp hsome
  rw [← Option.some.inj hsome, decide_eq_true_eq]
  exact Nat.not_le_of_lt h

/-- A string has as many bytes as characters, or more. -/
theorem length_le_utf8ByteSize (characters : List Char) :
    characters.length ≤ (String.ofList characters).utf8ByteSize := by
  induction characters with
  | nil => exact Nat.zero_le _
  | cons character rest ih =>
      rw [← List.singleton_append, String.ofList_append, String.utf8ByteSize_append,
        List.length_append]
      have hcharacter : (String.ofList [character]).utf8ByteSize = character.utf8Size :=
        String.utf8ByteSize_singleton
      have hpos := character.utf8Size_pos
      rw [List.length_singleton]
      omega

/-! ## What is computed -/

namespace Sequence

/-- What the operations compute, in the same way for each kind of sequence. -/
structure Computes (sequence : Sequence α) (heap : Heap) : Prop where
  index : ∀ {key : Number} {word : Int64} (elements : List α), (number key).integer? = some word →
    Value.index heap (sequence.value elements) (number key) =
      .ok (((place? elements.length word).bind (elements[·]?)).elim nil sequence.element)
  add : ∀ front back : List α,
    Value.add (sequence.value front) (sequence.value back) = .ok (sequence.value (front ++ back))
  multiply : ∀ {count : Number} {word : Int64} {elements : List α},
    (number count).integer? = some word →
    sequence.size elements * word.toNatClampNeg ≤ 2 ^ 28 →
    Value.multiply (sequence.value elements) (number count) =
      .ok (sequence.value (List.replicate word.toNatClampNeg elements).flatten)
  refuse : ∀ {count : Number} {word : Int64} {elements : List α},
    (number count).integer? = some word →
    2 ^ 28 < sequence.size elements * word.toNatClampNeg →
    Value.multiply (sequence.value elements) (number count) = .error .repeatTooLarge
  length_le_size : ∀ elements : List α, elements.length ≤ sequence.size elements

theorem computes_lists (heap : Heap) : lists.Computes heap where
  index := by
    intro key word items hkey
    simp only [lists, Value.index, hkey]
    cases (place? items.length word).bind (items[·]?) with
    | none => rfl
    | some item => rfl
  add _ _ := rfl
  multiply := by
    intro count word items hcount hsize
    have hrepeated : repeatedSize? items.length _ = some _ := repeatedSize?_of_le hsize
    simp only [lists, Value.multiply, hcount, hrepeated, takeAround_mul_length]
  refuse := by
    intro count word items hcount hsize
    have hrepeated : repeatedSize? items.length _ = none := repeatedSize?_of_lt hsize
    simp only [lists, Value.multiply, hcount, hrepeated]
  length_le_size _ := Nat.le_refl _

theorem computes_strings (heap : Heap) : strings.Computes heap where
  index := by
    intro key word characters hkey
    simp only [strings, Value.index, hkey, String.toList_ofList]
  add front back := by
    simp only [strings, Value.add, String.ofList_append]
  multiply := by
    intro count word characters hcount hsize
    have hrepeated : repeatedSize? (String.ofList characters).utf8ByteSize _ = some _ :=
      repeatedSize?_of_le hsize
    simp only [strings, Value.multiply, hcount, hrepeated, repeatText_ofList]
  refuse := by
    intro count word characters hcount hsize
    have hrepeated : repeatedSize? (String.ofList characters).utf8ByteSize _ = none :=
      repeatedSize?_of_lt hsize
    simp only [strings, Value.multiply, hcount, hrepeated]
  length_le_size := length_le_utf8ByteSize

variable {sequence : Sequence α} {elements front back : List α} {width' : Nat}

theorem tooLarge_iff :
    sequence.TooLarge elements n ↔ 2 ^ 28 < sequence.size elements * n.toNat := by
  rw [TooLarge]
  by_cases hpos : 0 < n
  · obtain ⟨times, rfl⟩ := Int.eq_ofNat_of_zero_le hpos.le
    rw [and_iff_right hpos, Int.toNat_natCast, Nat.mul_comm]
    exact_mod_cast Iff.rfl
  · rw [Int.toNat_of_nonpos (not_lt.mp hpos), Nat.mul_zero]
    exact ⟨fun h => absurd h.1 hpos, fun h => absurd h (Nat.not_lt_zero _)⟩

namespace Computes

/-- At an index that denotes a place there is the element of that place. -/
theorem index_eq (h : sequence.Computes heap) (hfits : Fits elements)
    (hkey : key.IsInteger width i) (hplace : place < elements.length)
    (hi : i = place ∨ i = place - elements.length) :
    Value.index heap (sequence.value elements) (number key) =
      .ok (elements[place]?.elim nil sequence.element) := by
  obtain ⟨word, hword, rfl⟩ := integer?_of_isInteger hkey
  rw [h.index elements hword, (place?_eq_some_iff hfits).mpr ⟨hplace, hi⟩, Option.bind_some]

theorem index_eq_of_getElem? (h : sequence.Computes heap) {element : α} (hfits : Fits elements)
    (hkey : key.IsInteger width i) (helement : elements[place]? = some element)
    (hi : i = place ∨ i = place - elements.length) :
    Value.index heap (sequence.value elements) (number key) = .ok (sequence.element element) := by
  obtain ⟨hplace, -⟩ := List.getElem?_eq_some_iff.mp helement
  rw [h.index_eq hfits hkey hplace hi, helement]
  rfl

theorem index_eq_nil (h : sequence.Computes heap) (hfits : Fits elements)
    (hkey : key.IsInteger width i) (hi : i < -elements.length ∨ elements.length ≤ i) :
    Value.index heap (sequence.value elements) (number key) = .ok nil := by
  obtain ⟨word, hword, rfl⟩ := integer?_of_isInteger hkey
  rw [h.index elements hword, place?_eq_none hfits hi]
  rfl

theorem index_append_left (h : sequence.Computes heap) (hfits : Fits (front ++ back))
    (hkey : key.IsInteger width place) (hplace : place < front.length) :
    Value.index heap (sequence.value (front ++ back)) (number key) =
      Value.index heap (sequence.value front) (number key) := by
  obtain ⟨hfront, -⟩ := hfits.of_append
  have hwhole : place < (front ++ back).length := by
    rw [List.length_append]
    omega
  rw [h.index_eq hfits hkey hwhole (.inl rfl), h.index_eq hfront hkey hplace (.inl rfl),
    List.getElem?_append_left hplace]

theorem index_append_right (h : sequence.Computes heap) (hfits : Fits (front ++ back))
    (hkey : key.IsInteger width ((front.length : Int) + place))
    (hother : other.IsInteger width' place) (hplace : place < back.length) :
    Value.index heap (sequence.value (front ++ back)) (number key) =
      Value.index heap (sequence.value back) (number other) := by
  obtain ⟨-, hback⟩ := hfits.of_append
  have hwhole : front.length + place < (front ++ back).length := by
    rw [List.length_append]
    omega
  rw [h.index_eq hfits hkey hwhole (.inl (Int.natCast_add _ _).symm),
    h.index_eq hback hother hplace (.inl rfl), List.getElem?_append_right (Nat.le_add_right _ _),
    Nat.add_sub_cancel_left]

/-- A repetition is refused, or it gives the elements repeated. -/
theorem multiply_cases (h : sequence.Computes heap) (elements : List α)
    (hcount : count.IsInteger width n) :
    sequence.TooLarge elements n ∧
        Value.multiply (sequence.value elements) (number count) = .error .repeatTooLarge ∨
      ¬sequence.TooLarge elements n ∧
        Value.multiply (sequence.value elements) (number count) =
          .ok (sequence.value (List.replicate n.toNat elements).flatten) := by
  obtain ⟨word, hword, rfl⟩ := integer?_of_isInteger hcount
  rw [tooLarge_iff]
  by_cases hsize : 2 ^ 28 < sequence.size elements * word.toInt.toNat
  · exact .inl ⟨hsize, h.refuse hword hsize⟩
  · exact .inr ⟨hsize, h.multiply hword (not_lt.mp hsize)⟩

theorem multiply_eq_ok_iff (h : sequence.Computes heap) {product : Value}
    (hcount : count.IsInteger width n) :
    Value.multiply (sequence.value elements) (number count) = .ok product ↔
      ¬sequence.TooLarge elements n ∧
        product = sequence.value (List.replicate n.toNat elements).flatten := by
  obtain ⟨hlarge, herror⟩ | ⟨hsize, hproduct⟩ := h.multiply_cases elements hcount
  · simp [herror, hlarge]
  · simp [hproduct, hsize, eq_comm]

theorem multiply_eq_error_iff (h : sequence.Computes heap) {error : OperationError}
    (hcount : count.IsInteger width n) :
    Value.multiply (sequence.value elements) (number count) = .error error ↔
      sequence.TooLarge elements n ∧ error = .repeatTooLarge := by
  obtain ⟨hlarge, herror⟩ | ⟨hsize, hproduct⟩ := h.multiply_cases elements hcount
  · simp [herror, hlarge, eq_comm]
  · simp [hproduct, hsize]

/-- What a repetition gives is not too long to be indexed. -/
theorem fits_replicate (h : sequence.Computes heap)
    (hsize : ¬sequence.TooLarge elements n) : Fits (List.replicate n.toNat elements).flatten := by
  rw [tooLarge_iff, not_lt] at hsize
  rw [Fits, length_flatten_replicate, Nat.mul_comm]
  calc elements.length * n.toNat
      ≤ sequence.size elements * n.toNat := Nat.mul_le_mul_right _ (h.length_le_size elements)
    _ ≤ 2 ^ 28 := hsize
    _ < 2 ^ 63 := by decide

theorem index_replicate (h : sequence.Computes heap) (hsize : ¬sequence.TooLarge elements n)
    (hkey : key.IsInteger width place) (hplace : place < n * elements.length)
    (hother : other.IsInteger width' ((place % elements.length : Nat) : Int)) :
    Value.index heap (sequence.value (List.replicate n.toNat elements).flatten) (number key) =
      Value.index heap (sequence.value elements) (number other) := by
  obtain ⟨hpos, hlt⟩ := lt_toNat_mul hplace
  have hlength := length_flatten_replicate n.toNat elements
  have hfits := h.fits_replicate hsize
  have helements : Fits elements := by
    have hle := Nat.le_mul_of_pos_left elements.length hpos
    rw [Fits, hlength] at hfits
    exact Nat.lt_of_le_of_lt hle hfits
  have hround : place % elements.length < elements.length :=
    Nat.mod_lt _ (Nat.pos_of_mul_pos_left (Nat.zero_lt_of_lt hlt))
  rw [h.index_eq hfits hkey (by rwa [hlength]) (.inl rfl),
    h.index_eq helements hother hround (.inl rfl), getElem?_flatten_replicate hlt]

end Computes

/-! ## The laws -/

/-- The laws of indexing, joining and repeating. Indices and counts are numbers of both
integer kinds, with all the integers that they can be. -/
structure Lawful (sequence : Sequence α) (heap : Heap) : Prop where
  /-- From zero on an index counts from the beginning. -/
  index_front : ∀ {elements : List α} {place width : Nat} {key : Number} {element : α},
    Fits elements → key.IsInteger width place → elements[place]? = some element →
    index heap (sequence.value elements) (number key) = .ok (sequence.element element)
  /-- Below zero it counts from the end. -/
  index_back : ∀ {elements : List α} {place width : Nat} {key : Number} {element : α},
    Fits elements → key.IsInteger width (place - elements.length) →
    elements[place]? = some element →
    index heap (sequence.value elements) (number key) = .ok (sequence.element element)
  /-- There is nothing beyond either end. -/
  index_outside : ∀ {elements : List α} {i : Int} {width : Nat} {key : Number},
    Fits elements → key.IsInteger width i → i < -elements.length ∨ elements.length ≤ i →
    index heap (sequence.value elements) (number key) = .ok nil
  /-- The sum for an index that counts from the end has no overflow. -/
  index_exact : ∀ {elements : List α} {word : Int64}, Fits elements → word < 0 →
    (word + Int64.ofNat elements.length).toInt = word.toInt + elements.length
  /-- Sequences are joined by their elements. -/
  add : ∀ front back : List α,
    apply heap .add (sequence.value front) (sequence.value back) =
      .ok (sequence.value (front ++ back))
  /-- Up to the length of the first sequence a joined one is the first. -/
  index_add_front : ∀ {front back : List α} {place width : Nat} {key : Number},
    Fits (front ++ back) → key.IsInteger width place → place < front.length →
    index heap (sequence.value (front ++ back)) (number key) =
      index heap (sequence.value front) (number key)
  /-- From there on it is the second, and then it ends. -/
  index_add_back : ∀ {front back : List α} {place width width' : Nat} {key key' : Number},
    Fits (front ++ back) → key.IsInteger width ((front.length : Int) + place) →
    key'.IsInteger width' place → place < back.length →
    index heap (sequence.value (front ++ back)) (number key) =
      index heap (sequence.value back) (number key')
  /-- A sequence a number of times is as many of it joined. -/
  multiply : ∀ {elements : List α} {times : Int} {width : Nat} {count : Number},
    count.IsInteger width times → ¬sequence.TooLarge elements times →
    apply heap .multiply (sequence.value elements) (number count) =
      .ok (sequence.value (List.replicate times.toNat elements).flatten)
  /-- A negative number of times it is empty. -/
  multiply_neg : ∀ {elements : List α} {times : Int} {width : Nat} {count : Number},
    count.IsInteger width times → times < 0 →
    apply heap .multiply (sequence.value elements) (number count) = .ok (sequence.value [])
  /-- A repeated sequence begins again where it ends. -/
  index_multiply : ∀ {elements : List α} {times : Int} {place width width' width'' : Nat}
    {count key key' : Number} {product : Value},
    count.IsInteger width times →
    apply heap .multiply (sequence.value elements) (number count) = .ok product →
    key.IsInteger width' place → place < times * elements.length →
    key'.IsInteger width'' ((place % elements.length : Nat) : Int) →
    index heap product (number key) = index heap (sequence.value elements) (number key')
  /-- A repetition is refused if and only if it is too large, and then this is said. -/
  multiply_fails : ∀ {elements : List α} {times : Int} {width : Nat} {count : Number},
    count.IsInteger width times →
    ((∃ error, apply heap .multiply (sequence.value elements) (number count) = .error error) ↔
      sequence.TooLarge elements times)
  multiply_message : ∀ {elements : List α} {times : Int} {width : Nat} {count : Number}
    {error : OperationError},
    count.IsInteger width times →
    apply heap .multiply (sequence.value elements) (number count) = .error error →
    error.message = "repeat count too large"

theorem Computes.lawful (h : sequence.Computes heap) : sequence.Lawful heap := by
  constructor
  case index_front =>
    intro elements place width key element hfits hkey helement
    exact h.index_eq_of_getElem? hfits hkey helement (.inl rfl)
  case index_back =>
    intro elements place width key element hfits hkey helement
    exact h.index_eq_of_getElem? hfits hkey helement (.inr rfl)
  case index_outside => exact h.index_eq_nil
  case index_exact => exact toInt_add_length
  case add => exact h.add
  case index_add_front => exact h.index_append_left
  case index_add_back => exact h.index_append_right
  case multiply => exact fun hcount hsize => (h.multiply_eq_ok_iff hcount).mpr ⟨hsize, rfl⟩
  case multiply_neg =>
    intro elements times width count hcount hneg
    have hsize : ¬sequence.TooLarge elements times := fun hlarge => hneg.asymm hlarge.1
    refine (h.multiply_eq_ok_iff hcount).mpr ⟨hsize, ?_⟩
    rw [Int.toNat_of_nonpos hneg.le]
    rfl
  case index_multiply =>
    intro elements times place width width' width'' count key other product hcount hproduct
    obtain ⟨hsize, rfl⟩ := (h.multiply_eq_ok_iff hcount).mp hproduct
    exact h.index_replicate hsize
  case multiply_fails =>
    intro elements times width count hcount
    constructor
    · rintro ⟨error, herror⟩
      exact ((h.multiply_eq_error_iff hcount).mp herror).1
    · exact fun hlarge => ⟨_, (h.multiply_eq_error_iff hcount).mpr ⟨hlarge, rfl⟩⟩
  case multiply_message =>
    intro elements times width count error hcount herror
    obtain ⟨-, rfl⟩ := (h.multiply_eq_error_iff hcount).mp herror
    rfl

/-- Lists and strings are indexed, joined and repeated by the same laws: lists by their
elements, and strings by their characters, of which the bytes bound a repetition. -/
theorem lawful_lists_and_strings (heap : Heap) : lists.Lawful heap ∧ strings.Lawful heap :=
  ⟨(computes_lists heap).lawful, (computes_strings heap).lawful⟩

/-- The last element of a list by its index from the end, and a place in the last round of a
repeated string. -/
theorem lawful_lists_and_strings_of_lastPlaces :
    index .empty (lists.value [nil, boolean true]) (number (.int (-1))) = .ok (boolean true) ∧
      ∃ product, apply .empty .multiply (strings.value ['h', 'é']) (number (.int 3)) = .ok product ∧
        index .empty product (number (.long 5)) =
          index .empty (strings.value ['h', 'é']) (number (.int 1)) := by
  obtain ⟨hlists, hstrings⟩ := lawful_lists_and_strings .empty
  constructor
  · have hfits : Fits [nil, boolean true] := by
      rw [Fits]
      decide
    have hkey : (Number.int (-1)).IsInteger 32 (1 - 2) := .int (by decide)
    have hlast : [nil, boolean true][1]? = some (boolean true) := rfl
    exact hlists.index_back hfits hkey hlast
  · have hcount : (Number.int 3).IsInteger 32 3 := .int (by decide)
    have hsize : ¬strings.TooLarge ['h', 'é'] 3 := by
      rw [TooLarge]
      decide
    have hproduct := hstrings.multiply hcount hsize
    have hkey : (Number.long 5).IsInteger 64 (5 : Nat) := .long (by decide)
    have hround : (Number.int 1).IsInteger 32 ((5 % 2 : Nat) : Int) := .int (by decide)
    exact ⟨_, hproduct, hstrings.index_multiply hcount hproduct hkey (by decide) hround⟩

/-- Characters may have several bytes. -/
example : strings.size ['h', 'é'] = 3 := by decide

end Sequence

end Script.Value
