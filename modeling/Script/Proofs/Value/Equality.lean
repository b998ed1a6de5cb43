/-
# Equality by text

Two values are equal for the language if they are of one kind and have one quoted form.
For values that are made of integers, booleans, nil, strings and lists, of which all levels
are shown, this is the same as having one structure: the text of such a value can be read
in one way only. Its first character says which kind of value it is, and what may stand
behind it, a separator, a closing brace or nothing, ends it.
-/

import Script.Proofs.Number.Digits
import Script.Proofs.Text.Quoted
import Script.Proofs.Value.Data
import Script.Value.Operation

namespace Script.Value

variable {heap : Heap} {left right : Value} {rest rest' : List Char}

mutual

/-- A value that is made of 32-bit integers, booleans, nil, strings and lists of such
values. -/
def IsPlain : Value → Prop
  | .number (.int _) | .boolean _ | .string _ | .nil => True
  | .list items => ArePlain items
  | .number (.long _) | .number (.double _) | .function .. | .space .. => False

/-- Values that are plain, all of them. -/
def ArePlain : List Value → Prop
  | [] => True
  | item :: others => IsPlain item ∧ ArePlain others

end

theorem isPlain_list_iff {items : List Value} :
    IsPlain (.list items) ↔ ∀ item ∈ items, IsPlain item := by
  rw [IsPlain]
  induction items with
  | nil => simp [ArePlain]
  | cons item items ih => rw [ArePlain, ih, List.forall_mem_cons]

theorem IsPlain.cases {value : Value} (h : IsPlain value) :
    (∃ int, value = .number (.int int)) ∨ (∃ truth, value = .boolean truth) ∨
      (∃ text, value = .string text) ∨ (∃ items, value = .list items) ∨ value = .nil := by
  cases value with
  | number value =>
      cases value with
      | int value => exact .inl ⟨value, rfl⟩
      | long value => exact h.elim
      | double value => exact h.elim
  | boolean value => exact .inr (.inl ⟨value, rfl⟩)
  | string text => exact .inr (.inr (.inl ⟨text, rfl⟩))
  | list items => exact .inr (.inr (.inr (.inl ⟨items, rfl⟩)))
  | function name id => exact h.elim
  | space name frame => exact h.elim
  | nil => exact .inr (.inr (.inr (.inr rfl)))

/-! ## Structural equality -/

theorem sameEach_iff {lefts rights : List Value}
    (h : ∀ left ∈ lefts, ∀ {right}, same left right = true ↔ left = right) :
    sameEach lefts rights = true ↔ lefts = rights := by
  induction lefts generalizing rights with
  | nil => cases rights <;> simp [sameEach]
  | cons left lefts ih =>
      obtain ⟨hleft, hlefts⟩ := List.forall_mem_cons.mp h
      cases rights with
      | nil => simp [sameEach]
      | cons right rights =>
          rw [sameEach, Bool.and_eq_true, hleft, ih hlefts, List.cons.injEq]

/-- A plain value is the same as itself and as no other value. -/
theorem same_iff_eq : ∀ {left right : Value}, IsPlain left →
    (same left right = true ↔ left = right)
  | .number (.int value), right, _ => by
      cases right with
      | number other =>
          cases other with
          | int other =>
              have hequal : same (.number (.int value)) (.number (.int other)) =
                  (value == other) := by rw [same]; rfl
              rw [hequal, beq_iff_eq, number.injEq, Number.int.injEq]
          | _ => simp [same]; rfl
      | _ => simp [same]
  | .boolean value, right, _ => by cases right <;> simp [same]
  | .string text, right, _ => by cases right <;> simp [same]
  | .list items, right, h => by
      cases right with
      | list others =>
          rw [same, list.injEq]
          exact sameEach_iff fun item hitem => same_iff_eq (isPlain_list_iff.mp h item hitem)
      | _ => simp [same]
  | .nil, right, _ => by cases right <;> simp [same]

/-! ## The text of a plain value -/

section

variable (heap : Heap) (levels : Nat)

theorem toList_render_int (value : Int32) :
    (render heap (levels + 1) true (.number (.int value))).toList =
      (toString value.toInt).toList := by
  rw [render.eq_def]
  rfl

theorem toList_render_boolean (value : Bool) :
    (render heap (levels + 1) true (.boolean value)).toList = (truthText value).toList := by
  rw [render.eq_def]

theorem toList_render_string (text : String) :
    (render heap (levels + 1) true (.string text)).toList = (Text.quote text).toList := by
  rw [render.eq_def]
  rfl

theorem toList_render_list (items : List Value) :
    (render heap (levels + 1) true (.list items)).toList =
      '\x7b' :: ([',', ' '].intercalate
        (items.map fun item => (item.render heap levels true).toList) ++ ['\x7d']) := by
  rw [render.eq_def]
  simp only [String.toList_append, String.toList_intercalate, List.map_map, List.append_assoc]
  rfl

theorem toList_render_nil : (render heap (levels + 1) true .nil).toList = "nil".toList := by
  rw [render.eq_def]

end

/-- The kind of the plain value whose text begins with a character. -/
def kindOfFirst (first : Char) : Option TypeTag :=
  if first.isDigit || first = '-' then some .int
  else if first = 't' || first = 'f' then some .boolean
  else if first = 'n' then some .void
  else if first = '"' then some .string
  else if first = '\x7b' then some .list
  else none

/-- The characters of which the text of an integer is made. -/
def isIntegral (character : Char) : Bool := character.isDigit || character = '-'

/-- The text of an integer is a row of integral characters that is not empty. -/
theorem exists_integral (value : Int) :
    ∃ first others, (toString value).toList = first :: others ∧
      ∀ character ∈ first :: others, isIntegral character = true := by
  obtain ⟨first, others, heq⟩ :=
    List.exists_cons_of_ne_nil (Number.toList_toString_ne_nil value)
  refine ⟨first, others, heq, heq ▸ Number.forall_mem_toString rfl ?_ value⟩
  intro character hdigit
  rw [isIntegral, hdigit]
  rfl

/-- The text of a plain value is not empty, and its first character tells the kind. -/
theorem exists_first (heap : Heap) (levels : Nat) {value : Value} (h : IsPlain value) :
    ∃ first others, (value.render heap (levels + 1) true).toList = first :: others ∧
      kindOfFirst first = some value.tag := by
  obtain ⟨int, rfl⟩ | ⟨truth, rfl⟩ | ⟨text, rfl⟩ | ⟨items, rfl⟩ | rfl := h.cases
  · obtain ⟨first, others, heq, hall⟩ := exists_integral int.toInt
    refine ⟨first, others, (toList_render_int ..).trans heq, ?_⟩
    rw [kindOfFirst, ← isIntegral, if_pos (hall first List.mem_cons_self)]
    rfl
  · have htext := toList_render_boolean heap levels truth
    cases truth with
    | false => exact ⟨_, _, htext, rfl⟩
    | true => exact ⟨_, _, htext, rfl⟩
  · exact ⟨_, _, (toList_render_string ..).trans (Text.toList_quote text), rfl⟩
  · exact ⟨_, _, toList_render_list heap levels items, rfl⟩
  · exact ⟨_, _, toList_render_nil heap levels, rfl⟩

/-- The text of a plain value does not begin with a closing brace. -/
theorem render_append_ne_brace {levels : Nat} {value : Value} (h : IsPlain value)
    (hdepth : value.depth < levels) :
    (value.render heap levels true).toList ++ rest ≠ '\x7d' :: rest' := by
  obtain ⟨levels, rfl⟩ := Nat.exists_eq_succ_of_ne_zero (Nat.ne_zero_of_lt hdepth)
  obtain ⟨first, others, heq, hkind⟩ := exists_first heap levels h
  rw [heq]
  intro hbegins
  rw [(List.cons.inj hbegins).1] at hkind
  cases hkind

/-! ## Where the text of a plain value ends -/

/-- What may stand behind the text of a value that is alone or inside a list: nothing, a
separator or a closing brace. -/
def EndsValue (rest : List Char) : Prop :=
  ∀ character ∈ rest.head?, character = ',' ∨ character = '\x7d'

theorem EndsValue.not_isIntegral (h : EndsValue rest) :
    ∀ character ∈ rest.head?, isIntegral character = false := by
  intro character hcharacter
  obtain rfl | rfl := h character hcharacter <;> rfl

/-- Among some values, where a text ends and of which value it is can be read off. -/
def ReadsOnce (text : Value → List Char) (lefts rights : List Value) : Prop :=
  ∀ left ∈ lefts, ∀ right ∈ rights, ∀ rest rest', EndsValue rest → EndsValue rest' →
    text left ++ rest = text right ++ rest' → left = right ∧ rest = rest'

/-- The items of a list behind its first one, and the closing brace. -/
def laterItems (text : Value → List Char) (items : List Value) (rest : List Char) :
    List Char :=
  items.flatMap (fun item => ',' :: ' ' :: text item) ++ '\x7d' :: rest

theorem endsValue_laterItems (text : Value → List Char) (items : List Value) :
    EndsValue (laterItems text items rest) := by
  cases items with
  | nil =>
      rintro _ ⟨⟩
      exact .inr rfl
  | cons item items =>
      rintro _ ⟨⟩
      exact .inl rfl

theorem laterItems_cons (text : Value → List Char) (item : Value) (items : List Value) :
    laterItems text (item :: items) rest =
      ',' :: ' ' :: (text item ++ laterItems text items rest) := by
  rw [laterItems, List.flatMap_cons, List.append_assoc]
  rfl

theorem laterItems_inj {text : Value → List Char} {lefts rights : List Value}
    (hreads : ReadsOnce text lefts rights)
    (h : laterItems text lefts rest = laterItems text rights rest') :
    lefts = rights ∧ rest = rest' := by
  induction lefts generalizing rights with
  | nil =>
      cases rights with
      | nil => exact ⟨rfl, (List.cons.inj h).2⟩
      | cons right rights =>
          rw [laterItems_cons] at h
          cases h
  | cons left lefts ih =>
      cases rights with
      | nil =>
          rw [laterItems_cons] at h
          cases h
      | cons right rights =>
          rw [laterItems_cons, laterItems_cons] at h
          obtain ⟨rfl, hbehind⟩ := hreads left List.mem_cons_self right List.mem_cons_self _ _
            (endsValue_laterItems text lefts) (endsValue_laterItems text rights)
            (List.cons.inj (List.cons.inj h).2).2
          have hlater : ReadsOnce text lefts rights := fun left hleft right hright =>
            hreads left (List.mem_cons_of_mem _ hleft) right (List.mem_cons_of_mem _ hright)
          obtain ⟨rfl, hrest⟩ := ih hlater hbehind
          exact ⟨rfl, hrest⟩

theorem intercalate_cons_append (text : Value → List Char) (item : Value)
    (items : List Value) :
    [',', ' '].intercalate ((item :: items).map text) ++ '\x7d' :: rest =
      text item ++ laterItems text items rest := by
  induction items generalizing item with
  | nil => rw [List.map_singleton, List.intercalate_singleton]; rfl
  | cons next items ih =>
      rw [List.map_cons, List.map_cons, List.intercalate_cons_cons, List.append_assoc,
        ← List.map_cons, ih, laterItems_cons, List.append_assoc]
      rfl

/-- Where the text of the items of a list ends, and which items they are, can be read off,
if this is so for each item and none begins with a closing brace. -/
theorem items_append_inj {text : Value → List Char} {lefts rights : List Value}
    (hreads : ReadsOnce text lefts rights)
    (hbegins : ∀ value ∈ lefts ++ rights, ∀ rest rest', text value ++ rest ≠ '\x7d' :: rest')
    (h : [',', ' '].intercalate (lefts.map text) ++ '\x7d' :: rest =
      [',', ' '].intercalate (rights.map text) ++ '\x7d' :: rest') :
    lefts = rights ∧ rest = rest' := by
  cases lefts with
  | nil =>
      cases rights with
      | nil => exact ⟨rfl, (List.cons.inj h).2⟩
      | cons right rights =>
          rw [intercalate_cons_append] at h
          exact (hbegins right (by simp) _ _ h.symm).elim
  | cons left lefts =>
      cases rights with
      | nil =>
          rw [intercalate_cons_append] at h
          exact (hbegins left (by simp) _ _ h).elim
      | cons right rights =>
          rw [intercalate_cons_append, intercalate_cons_append] at h
          obtain ⟨rfl, hlater⟩ := hreads left List.mem_cons_self right List.mem_cons_self _ _
            (endsValue_laterItems text lefts) (endsValue_laterItems text rights) h
          have hothers : ReadsOnce text lefts rights := fun left hleft right hright =>
            hreads left (List.mem_cons_of_mem _ hleft) right (List.mem_cons_of_mem _ hright)
          obtain ⟨rfl, hrest⟩ := laterItems_inj hothers hlater
          exact ⟨rfl, hrest⟩

/-! ## Which value a text is of -/

theorem int_append_inj {value value' : Int32} (hrest : EndsValue rest) (hrest' : EndsValue rest')
    (h : (toString value.toInt).toList ++ rest = (toString value'.toInt).toList ++ rest') :
    value = value' ∧ rest = rest' := by
  have hall (value : Int) : ∀ character ∈ (toString value).toList, isIntegral character = true := by
    obtain ⟨first, others, heq, hall⟩ := exists_integral value
    exact heq ▸ hall
  obtain ⟨htext, hbehind⟩ := Text.eq_and_eq_of_run_append_eq (hall _) (hall _)
    hrest.not_isIntegral hrest'.not_isIntegral h
  refine ⟨Int32.toInt_inj.mp (Int.repr_inj.mp ?_), hbehind⟩
  rw [← Int.toString_eq_repr, ← Int.toString_eq_repr]
  exact String.toList_inj.mp htext

theorem truthText_append_inj {value value' : Bool}
    (h : (truthText value).toList ++ rest = (truthText value').toList ++ rest') :
    value = value' ∧ rest = rest' := by
  cases value <;> cases value'
  · exact ⟨rfl, List.append_cancel_left h⟩
  · cases h
  · cases h
  · exact ⟨rfl, List.append_cancel_left h⟩

/-- Two plain values of one kind, kind by kind. -/
theorem alike_cases (hleft : IsPlain left) (hright : IsPlain right)
    (htag : left.tag = right.tag) :
    (∃ l r, left = .number (.int l) ∧ right = .number (.int r)) ∨
      (∃ l r, left = .boolean l ∧ right = .boolean r) ∨
      (∃ l r, left = .string l ∧ right = .string r) ∨
      (∃ l r, left = .list l ∧ right = .list r) ∨ (left = .nil ∧ right = .nil) := by
  obtain ⟨l, rfl⟩ | ⟨l, rfl⟩ | ⟨l, rfl⟩ | ⟨l, rfl⟩ | rfl := hleft.cases <;>
    obtain ⟨r, rfl⟩ | ⟨r, rfl⟩ | ⟨r, rfl⟩ | ⟨r, rfl⟩ | rfl := hright.cases <;>
    first
      | cases htag; done
      | simp

/-- Two plain values of which all levels are shown are one value if rows of characters that
begin with their texts are one row. -/
theorem render_append_inj {levels : Nat} (hleft : IsPlain left) (hright : IsPlain right)
    (hdepth : left.depth < levels) (hdepth' : right.depth < levels) (hrest : EndsValue rest)
    (hrest' : EndsValue rest')
    (h : (left.render heap levels true).toList ++ rest =
      (right.render heap levels true).toList ++ rest') : left = right ∧ rest = rest' := by
  induction levels generalizing left right rest rest' with
  | zero => exact (Nat.not_lt_zero _ hdepth).elim
  | succ levels ih =>
      have htag : left.tag = right.tag := by
        obtain ⟨first, others, heq, hkind⟩ := exists_first heap levels hleft
        obtain ⟨first', others', heq', hkind'⟩ := exists_first heap levels hright
        rw [heq, heq'] at h
        rw [(List.cons.inj h).1, hkind'] at hkind
        exact (Option.some.inj hkind).symm
      obtain ⟨l, r, rfl, rfl⟩ | ⟨l, r, rfl, rfl⟩ | ⟨l, r, rfl, rfl⟩ | ⟨l, r, rfl, rfl⟩ |
        ⟨rfl, rfl⟩ := alike_cases hleft hright htag
      · rw [toList_render_int, toList_render_int] at h
        obtain ⟨rfl, hbehind⟩ := int_append_inj hrest hrest' h
        exact ⟨rfl, hbehind⟩
      · rw [toList_render_boolean, toList_render_boolean] at h
        obtain ⟨rfl, hbehind⟩ := truthText_append_inj h
        exact ⟨rfl, hbehind⟩
      · rw [toList_render_string, toList_render_string] at h
        obtain ⟨rfl, hbehind⟩ := Text.quote_append_inj h
        exact ⟨rfl, hbehind⟩
      · rw [toList_render_list, toList_render_list, List.cons_append, List.cons_append,
          List.append_assoc, List.append_assoc] at h
        rw [isPlain_list_iff] at hleft hright
        have hbelow {items : List Value} (hitems : depth (.list items) < levels + 1) :
            ∀ item ∈ items, item.depth < levels := fun item hitem =>
          Nat.lt_of_lt_of_le (depth_lt_of_mem hitem) (Nat.le_of_lt_succ hitems)
        have hreads : ReadsOnce (fun item => (item.render heap levels true).toList) l r :=
          fun left hl right hr rest rest' => ih (hleft left hl) (hright right hr)
            (hbelow hdepth left hl) (hbelow hdepth' right hr)
        have hbegins : ∀ value ∈ l ++ r, ∀ rest rest',
            (value.render heap levels true).toList ++ rest ≠ '\x7d' :: rest' := by
          intro value hvalue rest rest'
          obtain hl | hr := List.mem_append.mp hvalue
          · exact render_append_ne_brace (hleft value hl) (hbelow hdepth value hl)
          · exact render_append_ne_brace (hright value hr) (hbelow hdepth' value hr)
        obtain ⟨rfl, hbehind⟩ := items_append_inj hreads hbegins (List.cons.inj h).2
        exact ⟨rfl, hbehind⟩
      · exact ⟨rfl, List.append_cancel_left h⟩

/-- Plain values of which all levels are shown have one text only if they are one value. -/
theorem repr_eq_iff (hleft : IsPlain left) (hright : IsPlain right) (hdepth : left.depth ≤ 8)
    (hdepth' : right.depth ≤ 8) : left.repr heap = right.repr heap ↔ left = right := by
  have hends : EndsValue [] := by
    rintro _ ⟨⟩
  constructor
  · intro h
    exact (render_append_inj hleft hright (Nat.lt_succ_of_le hdepth) (Nat.lt_succ_of_le hdepth')
      hends hends (congrArg (String.toList · ++ []) h)).1
  · rintro rfl
    rfl

/-- For plain values the equality of the language is the one of their structure. -/
theorem equals_eq_same (hleft : IsPlain left) (hright : IsPlain right) (hdepth : left.depth ≤ 8)
    (hdepth' : right.depth ≤ 8) : equals heap left right = same left right := by
  rw [Bool.eq_iff_iff, same_iff_eq hleft, equals, Bool.and_eq_true, decide_eq_true_eq, beq_iff_eq,
    repr_eq_iff hleft hright hdepth hdepth']
  constructor
  · exact fun h => h.2
  · rintro rfl
    exact ⟨rfl, rfl⟩

/-- A string comes before another one, is equal to it or comes after it, and only one of
these holds. -/
theorem exists_order (heap : Heap) (left right : String) :
    ∃ holds ∈ [BinaryOperator.less, .equal, .greater],
      ∀ operator ∈ [BinaryOperator.less, .equal, .greater],
        apply heap operator (.string left) (.string right) = .ok (.boolean (operator = holds)) := by
  have hequal : equals heap (.string left) (.string right) = (compare left right).isEq := by
    have hiff : (compare left right).isEq = true ↔ left = right := by
      rw [Ordering.isEq_iff_eq_eq, Std.compare_eq_iff_eq]
    have hplain (text : String) : IsPlain (.string text) := by
      rw [IsPlain]
      trivial
    rw [equals_eq_same (hplain left) (hplain right) (Nat.zero_le 8) (Nat.zero_le 8), same,
      Bool.eq_iff_iff, beq_iff_eq, hiff]
  simp only [List.forall_mem_cons, apply, compares, hequal]
  cases compare left right with
  | lt => exact ⟨.less, by simp, rfl, rfl, rfl, by simp⟩
  | eq => exact ⟨.equal, by simp, rfl, rfl, rfl, by simp⟩
  | gt => exact ⟨.greater, by simp, rfl, rfl, rfl, by simp⟩

/-- On values made of integers, booleans, nil, strings and lists, of which no element lies
more than eight levels deep, the operators for equality compare the structure of the values.
Of two strings exactly one of three things is true: the first is less, they are equal, or
the first is greater. -/
theorem apply_equal_of_isPlain (heap : Heap) :
    (∀ left right, IsPlain left → IsPlain right → left.depth ≤ 8 → right.depth ≤ 8 →
      apply heap .equal left right = .ok (.boolean (same left right)) ∧
        apply heap .notEqual left right = .ok (.boolean (!same left right))) ∧
      ∀ left right : String, ∃ holds ∈ [BinaryOperator.less, .equal, .greater],
        ∀ operator ∈ [BinaryOperator.less, .equal, .greater],
          apply heap operator (.string left) (.string right) =
            .ok (.boolean (operator = holds)) := by
  refine ⟨fun left right hleft hright hdepth hdepth' => ?_, exists_order heap⟩
  rw [apply, apply, equals_eq_same hleft hright hdepth hdepth']
  exact ⟨rfl, rfl⟩

/-- A list of two strings is not the list of one string that looks like the two, eight levels
deep. -/
theorem apply_equal_of_isPlain_of_quotes :
    let nested (items : List Value) := Nat.repeat (fun item => .list [item]) 7 (.list items)
    let two := nested [.string "a", .string "b"]
    let one := nested [.string "a\", \"b"]
    apply .empty .equal two one = .ok (.boolean false) ∧
      apply .empty .notEqual two one = .ok (.boolean true) :=
  (apply_equal_of_isPlain .empty).1 _ _ (by simp [Nat.repeat, IsPlain, ArePlain])
    (by simp [Nat.repeat, IsPlain, ArePlain]) (by decide) (by decide)

/-- One level deeper the strings are not shown. -/
example :
    let nested (items : List Value) := Nat.repeat (fun item => .list [item]) 8 (.list items)
    apply .empty .equal (nested [.string "a"]) (nested [.string "b"]) = .ok (.boolean true) :=
  rfl

end Script.Value
