/-
# What the text of a value leaves out

A value is written level by level: a list with the texts of its items, a namespace with the
names of its members and their texts, and any other value in its own form. What lies more
than eight levels below the value that is shown is left out, and an ellipsis in braces stands
in its place. So every value has a text, also one that lies below itself.

The ellipsis stands for lists and namespaces and for everything else alike: a number that
lies nine levels below is left out, although it could not go on forever. So the text leaves
out nothing but lists and namespaces if and only if nothing else lies nine levels below.
-/

import Script.Proofs.Value.Equality

namespace Script.Value

variable {heap : Heap} {depth levels : Nat} {quoted : Bool} {value inner : Value}

/-! ## Levels -/

/-- Whether a value is one that holds others: a list or a namespace. -/
def isContainer : Value → Bool
  | list _ | space .. => true
  | _ => false

/-- The values one level below a value. -/
def inside (heap : Heap) : Value → List Value
  | list items => items
  | space _ frame => (heap.frame frame).bindings.map fun (_, binding) => binding.value
  | _ => []

/-- A value lies a number of levels below another. Namespaces may hold each other, so that a
value may lie below itself. -/
inductive LiesBelow (heap : Heap) : Nat → Value → Value → Prop
  | itself {value : Value} : LiesBelow heap 0 value value
  | inside {levels : Nat} {value part below : Value} (h : part ∈ value.inside heap)
      (hbelow : LiesBelow heap levels part below) : LiesBelow heap (levels + 1) value below

theorem isContainer_of_mem_inside (h : inner ∈ value.inside heap) : value.isContainer = true := by
  cases value with
  | list | space => rfl
  | _ => cases h

/-! ## Texts of values -/

/-- The text of a value, given those of the values one level below. -/
def textAround (heap : Heap) (quoted : Bool) (value : Value) (parts : List String) : String :=
  match value with
  | number value => value.display
  | boolean value => truthText value
  | string value => if quoted then Text.quote value else value
  | function name _ => "<function " ++ name ++ ">"
  | nil => "nil"
  | list _ => "\x7b" ++ ", ".intercalate parts ++ "\x7d"
  | space _ frame =>
    let names := (heap.frame frame).bindings.map Prod.fst
    if names.isEmpty then "\x7b\x7d"
    else "\x7b " ++ ", ".intercalate (names.zipWith (· ++ "=" ++ ·) parts) ++ " \x7d"

/-- The text of a value at some depth in which an ellipsis stands for some of the values, at
some depths, and for no others. -/
inductive Shows (heap : Heap) (leavesOut : Nat → Value → Prop) :
    Nat → Bool → Value → String → Prop
  | ellipsis {depth : Nat} {quoted : Bool} {value : Value} (h : leavesOut depth value) :
      Shows heap leavesOut depth quoted value "\x7b...\x7d"
  | parts {depth : Nat} {quoted : Bool} {value : Value} {parts : List String}
      (h : ¬leavesOut depth value) (hlength : parts.length = (value.inside heap).length)
      (hparts : ∀ (place : Nat) (part : String) (inner : Value), parts[place]? = some part →
        (value.inside heap)[place]? = some inner →
        Shows heap leavesOut (depth + 1) true inner part) :
      Shows heap leavesOut depth quoted value (value.textAround heap quoted parts)

/-- What lies more than eight levels below, whatever it is. -/
def IsDeep (depth : Nat) (_ : Value) : Prop := 8 < depth

/-- The lists and namespaces that lie more than eight levels below. -/
def IsDeepContainer (depth : Nat) (value : Value) : Prop :=
  8 < depth ∧ value.isContainer = true

/-- A value has one text at most in which an ellipsis stands for given values. -/
theorem Shows.unique {leavesOut : Nat → Value → Prop} {text text' : String}
    (h : Shows heap leavesOut depth quoted value text)
    (h' : Shows heap leavesOut depth quoted value text') : text = text' := by
  induction h generalizing text' with
  | ellipsis hdeep =>
      cases h' with
      | ellipsis => rfl
      | parts hshown => exact (hshown hdeep).elim
  | @parts depth quoted value parts hshown hlength _ ih =>
      cases h' with
      | ellipsis hdeep => exact (hshown hdeep).elim
      | @parts _ _ _ parts' _ hlength' hparts' =>
          have hsize : parts.length = parts'.length := hlength.trans hlength'.symm
          refine congrArg _ (List.ext_getElem hsize fun place hlt hlt' => ?_)
          have hinner := List.getElem?_eq_getElem (hlength ▸ hlt)
          exact ih place _ _ (List.getElem?_eq_getElem hlt) hinner
            (hparts' place _ _ (List.getElem?_eq_getElem hlt') hinner)

/-! ## The text that is written -/

theorem render_zero (heap : Heap) (quoted : Bool) (value : Value) :
    render heap 0 quoted value = "\x7b...\x7d" := by
  rw [render.eq_def]

theorem render_succ (heap : Heap) (levels : Nat) (quoted : Bool) (value : Value) :
    render heap (levels + 1) quoted value =
      value.textAround heap quoted ((value.inside heap).map (render heap levels true)) := by
  rw [render.eq_def]
  cases value with
  | space name frame =>
      cases hbindings : (heap.frame frame).bindings with
      | nil => simp [textAround, hbindings]
      | cons binding bindings =>
          simp [textAround, inside, hbindings, List.zipWith_map, Function.comp_def]
  | _ => rfl

/-- The text that is written leaves out what lies more than eight levels below, whatever it
is, and nothing else. -/
theorem shows_render (heap : Heap) (quoted : Bool) (value : Value)
    (h : depth + levels = shownLevels) :
    Shows heap IsDeep depth quoted value (render heap levels quoted value) := by
  induction levels generalizing depth quoted value with
  | zero =>
      rw [render_zero]
      exact .ellipsis (Nat.le_of_eq h.symm)
  | succ levels ih =>
      rw [render_succ]
      have hshown : ¬IsDeep depth value := by
        rw [shownLevels] at h
        simp only [IsDeep]
        omega
      refine .parts hshown (List.length_map _) fun place part inner hpart hinner => ?_
      rw [List.getElem?_map, hinner] at hpart
      cases hpart
      exact ih true inner (by omega)

/-- If nothing but lists and namespaces is left out, then only these are. -/
theorem Shows.containers {text : String} (h : Shows heap IsDeep depth quoted value text)
    (hdepth : depth ≤ 9) (hcontainers : ∀ levels below, depth + levels = 9 →
      LiesBelow heap levels value below → below.isContainer = true) :
    Shows heap IsDeepContainer depth quoted value text := by
  induction h with
  | ellipsis hdeep =>
      refine .ellipsis ⟨hdeep, hcontainers 0 _ ?_ .itself⟩
      exact Nat.le_antisymm hdepth hdeep
  | @parts depth quoted value parts hshown hlength _ ih =>
      have hless : depth ≤ 8 := Nat.le_of_not_lt hshown
      refine .parts (fun hdeep => hshown hdeep.1) hlength fun place part inner hpart hinner => ?_
      refine ih place part inner hpart hinner (Nat.succ_le_succ hless) ?_
      intro levels below hlevels hbelow
      exact hcontainers (levels + 1) below (by omega)
        (.inside (List.mem_of_getElem? hinner) hbelow)

/-! ## Texts that part at an ellipsis -/

/-- Two texts are the same up to a place at which one goes on with an opening brace and the
other with another character. -/
def Diverge (left right : List Char) : Prop :=
  ∃ front rest other rest', left = front ++ '\x7b' :: rest ∧ right = front ++ other :: rest' ∧
    other ≠ '\x7b'

theorem Diverge.ne {left right : List Char} (h : Diverge left right) : left ≠ right := by
  obtain ⟨front, rest, other, rest', rfl, rfl, hother⟩ := h
  intro heq
  exact hother (List.cons.inj (List.append_cancel_left heq)).1.symm

theorem Diverge.append {left right : List Char} (h : Diverge left right)
    (before behind behind' : List Char) :
    Diverge (before ++ left ++ behind) (before ++ right ++ behind') := by
  obtain ⟨front, rest, other, rest', rfl, rfl, hother⟩ := h
  exact ⟨before ++ front, rest ++ behind, other, rest' ++ behind', by simp, by simp, hother⟩

theorem intercalate_cons_eq (separator item : List Char) (behind : List (List Char)) :
    separator.intercalate (item :: behind) = item ++ behind.flatMap (separator ++ ·) := by
  induction behind generalizing item with
  | nil => simp
  | cons next behind ih =>
      rw [List.intercalate_cons_cons, ih]
      simp

theorem intercalate_append_cons (separator : List Char) (before : List (List Char))
    (item : List Char) (behind : List (List Char)) :
    separator.intercalate (before ++ item :: behind) =
      before.flatMap (· ++ separator) ++ item ++ behind.flatMap (separator ++ ·) := by
  induction before with
  | nil => exact intercalate_cons_eq separator item behind
  | cons first before ih =>
      rw [List.cons_append, List.intercalate_cons_of_ne_nil (by simp), ih]
      simp

/-- Two rows of texts, as many in one as in the other, that are the same or diverge, place by
place, and diverge at some place. -/
structure DivergeSomewhere (lefts rights : List String) : Prop where
  length_eq : lefts.length = rights.length
  everywhere (place : Nat) (left right : String) : lefts[place]? = some left →
    rights[place]? = some right → left = right ∨ Diverge left.toList right.toList
  somewhere : ∃ (place : Nat) (left right : String), lefts[place]? = some left ∧
    rights[place]? = some right ∧ Diverge left.toList right.toList

theorem DivergeSomewhere.exists_first {lefts rights : List String}
    (h : DivergeSomewhere lefts rights) :
    ∃ before left right behind behind', lefts = before ++ left :: behind ∧
      rights = before ++ right :: behind' ∧ Diverge left.toList right.toList := by
  induction lefts generalizing rights with
  | nil =>
      obtain ⟨_, _, _, hnone, _⟩ := h.somewhere
      cases hnone
  | cons left lefts ih =>
      cases rights with
      | nil => cases h.length_eq
      | cons right rights =>
          obtain rfl | hdiverge := h.everywhere 0 left right rfl rfl
          · obtain ⟨place, first, second, hfirst, hsecond, hdiverge⟩ := h.somewhere
            cases place with
            | zero =>
                cases hfirst
                cases hsecond
                exact (hdiverge.ne rfl).elim
            | succ place =>
                obtain ⟨before, _, _, _, _, rfl, rfl, hlater⟩ :=
                  ih ⟨Nat.succ.inj h.length_eq, fun place => h.everywhere (place + 1),
                    place, first, second, hfirst, hsecond, hdiverge⟩
                exact ⟨left :: before, _, _, _, _, rfl, rfl, hlater⟩
          · exact ⟨[], left, right, lefts, rights, rfl, rfl, hdiverge⟩

theorem DivergeSomewhere.intercalate {lefts rights : List String}
    (h : DivergeSomewhere lefts rights) (separator : String) :
    Diverge (separator.intercalate lefts).toList (separator.intercalate rights).toList := by
  obtain ⟨before, left, right, behind, behind', rfl, rfl, hdiverge⟩ := h.exists_first
  simp only [String.toList_intercalate, List.map_append, List.map_cons, intercalate_append_cons]
  exact hdiverge.append _ _ _

/-- Texts that diverge somewhere still do so behind names. -/
theorem DivergeSomewhere.named {parts parts' : List String} (h : DivergeSomewhere parts parts')
    {names : List String} (hnames : names.length = parts.length) :
    DivergeSomewhere (names.zipWith (· ++ "=" ++ ·) parts)
      (names.zipWith (· ++ "=" ++ ·) parts') := by
  have hnamed {left right : String} (name : String) (h : Diverge left.toList right.toList) :
      Diverge (name ++ "=" ++ left).toList (name ++ "=" ++ right).toList := by
    have hbehind := h.append (name ++ "=").toList [] []
    simpa only [String.toList_append, List.append_nil] using hbehind
  constructor
  · simp only [List.length_zipWith, h.length_eq]
  · intro place left right hleft hright
    obtain ⟨name, part, hname, hpart, rfl⟩ := List.getElem?_zipWith_eq_some.mp hleft
    obtain ⟨name', part', hname', hpart', rfl⟩ := List.getElem?_zipWith_eq_some.mp hright
    obtain rfl : name = name' := Option.some.inj (hname.symm.trans hname')
    obtain rfl | hdiverge := h.everywhere place part part' hpart hpart'
    · exact .inl rfl
    · exact .inr (hnamed name hdiverge)
  · obtain ⟨place, part, part', hpart, hpart', hdiverge⟩ := h.somewhere
    have hplace : place < names.length := hnames ▸ (List.getElem?_eq_some_iff.mp hpart).1
    have hname := List.getElem?_eq_getElem hplace
    exact ⟨place, _, _, List.getElem?_zipWith_eq_some.mpr ⟨_, _, hname, hpart, rfl⟩,
      List.getElem?_zipWith_eq_some.mpr ⟨_, _, hname, hpart', rfl⟩, hnamed _ hdiverge⟩

/-- The texts of a value diverge if those of the values one level below do. -/
theorem DivergeSomewhere.textAround {parts parts' : List String}
    (h : DivergeSomewhere parts parts') (hcontainer : value.isContainer = true)
    (hlength : parts.length = (value.inside heap).length) :
    Diverge (value.textAround heap quoted parts).toList
      (value.textAround heap quoted parts').toList := by
  cases value with
  | list items =>
      simpa only [Value.textAround, String.toList_append] using (h.intercalate ", ").append _ _ _
  | space name frame =>
      have hnames : ((heap.frame frame).bindings.map Prod.fst).length = parts.length := by
        rw [hlength, inside, List.length_map, List.length_map]
      have hsome : ((heap.frame frame).bindings.map Prod.fst).isEmpty = false := by
        obtain ⟨place, part, _, hpart, _⟩ := h.somewhere
        rw [List.isEmpty_eq_false_iff, ← List.length_pos_iff, hnames]
        exact Nat.zero_lt_of_lt (List.getElem?_eq_some_iff.mp hpart).1
      simp only [Value.textAround, hsome, Bool.false_eq_true, if_false, String.toList_append]
      exact ((h.named hnames).intercalate ", ").append _ _ _
  | _ => cases hcontainer

/-! ## Texts that do not begin with a brace -/

/-- A text begins with a character that is not an opening brace. -/
def OpensBare (text : String) : Prop :=
  ∃ first others, text.toList = first :: others ∧ first ≠ '\x7b'

theorem opensBare_signed {negative : Bool} {text : String} (h : OpensBare text) :
    OpensBare (signed negative text) := by
  cases negative with
  | false => exact h
  | true => exact ⟨'-', text.toList, String.toList_append, by decide⟩

theorem opensBare_toString (value : Int) : OpensBare (toString value) := by
  obtain ⟨first, others, heq, hall⟩ := exists_integral value
  refine ⟨first, others, heq, ?_⟩
  rintro rfl
  cases hall _ List.mem_cons_self

theorem opensBare_positional (decimal : Decimal) : OpensBare decimal.positional := by
  obtain ⟨first, others, hdigits⟩ : ∃ first others, decimal.significant = first :: others :=
    List.exists_cons_of_ne_nil Nat.toDigits_ne_nil
  have hdigit : first.isDigit = true := by
    have hmem : first ∈ decimal.significant := by
      rw [hdigits]
      exact List.mem_cons_self
    exact Nat.isDigit_of_mem_toDigits (by decide) (by decide) hmem
  have hfirst : first ≠ '\x7b' := by
    rintro rfl
    cases hdigit
  rw [Decimal.positional, hdigits]
  simp only [OpensBare, String.toList_ofList]
  split
  · exact ⟨'0', _, rfl, by decide⟩
  · split
    · exact ⟨first, _, rfl, hfirst⟩
    · obtain ⟨units, hunits⟩ := Nat.exists_eq_succ_of_ne_zero
        (n := (decimal.order + 1).toNat) (by omega)
      rw [hunits]
      exact ⟨first, _, rfl, hfirst⟩

theorem opensBare_doubleText (value : Float) : OpensBare (Number.doubleText value) := by
  rw [Number.doubleText]
  split
  · exact ⟨'N', _, rfl, by decide⟩
  · exact opensBare_signed ⟨'I', _, rfl, by decide⟩
  · refine opensBare_signed ?_
    split
    · exact ⟨'0', _, rfl, by decide⟩
    · exact opensBare_positional _

/-- The quoted form of a value that holds no others does not begin with a brace. -/
theorem opensBare_textAround (h : value.isContainer = false) (parts : List String) :
    OpensBare (value.textAround heap true parts) := by
  cases value with
  | number value =>
      cases value with
      | int value => exact opensBare_toString _
      | long value => exact opensBare_toString _
      | double value => exact opensBare_doubleText value
  | boolean value =>
      cases value with
      | false => exact ⟨'f', ['a', 'l', 's', 'e'], by rw [textAround]; rfl, by decide⟩
      | true => exact ⟨'t', ['r', 'u', 'e'], by rw [textAround]; rfl, by decide⟩
  | string value => exact ⟨'"', _, Text.toList_quote value, by decide⟩
  | function name definition =>
      refine ⟨'<', "function ".toList ++ name.toList ++ ['>'], ?_, by decide⟩
      rw [textAround, String.toList_append, String.toList_append]
      rfl
  | nil => exact ⟨'n', ['i', 'l'], by rw [textAround]; rfl, by decide⟩
  | list | space => cases h

/-! ## When only lists and namespaces are left out -/

/-- If something else than a list or a namespace lies nine levels below the value that is
shown, then the text that leaves out all that is deep is not the one that leaves out only
lists and namespaces. -/
theorem Shows.diverge {text text' : String} (h : Shows heap IsDeep depth quoted value text)
    (h' : Shows heap IsDeepContainer depth quoted value text') (hdepth : depth ≤ 9)
    (hquoted : depth = 9 → quoted = true)
    (hbelow : ∃ levels below, depth + levels = 9 ∧ LiesBelow heap levels value below ∧
      below.isContainer = false) :
    Diverge text.toList text'.toList := by
  induction h generalizing text' with
  | @ellipsis depth quoted value hdeep =>
      have hnine : depth = 9 := Nat.le_antisymm hdepth hdeep
      obtain ⟨levels, below, hlevels, hbelow, hbare⟩ := hbelow
      obtain rfl : levels = 0 := by omega
      cases hbelow
      cases h' with
      | ellipsis hcontainer => cases hbare.symm.trans hcontainer.2
      | @parts _ _ _ parts =>
          rw [hquoted hnine]
          have hopens : OpensBare (value.textAround heap true parts) :=
            opensBare_textAround hbare parts
          obtain ⟨first, others, htext, hfirst⟩ := hopens
          exact ⟨[], _, first, others, rfl, htext, hfirst⟩
  | @parts depth quoted value parts hshown hlength hparts ih =>
      have hless : depth ≤ 8 := Nat.le_of_not_lt hshown
      cases h' with
      | ellipsis hcontainer => exact (hshown hcontainer.1).elim
      | @parts _ _ _ parts' _ hlength' hparts' =>
          obtain ⟨levels, below, hlevels, hbelow, hbare⟩ := hbelow
          cases hbelow with
          | itself => omega
          | @inside levels _ nested below hnested hbelow =>
              have hdiverge (place : Nat) (part part' : String) (inner : Value)
                  (hpart : parts[place]? = some part) (hpart' : parts'[place]? = some part')
                  (hinner : (value.inside heap)[place]? = some inner) :=
                ih place part inner hpart hinner (hparts' place part' inner hpart' hinner)
                  (Nat.succ_le_succ hless) (fun _ => rfl)
              refine DivergeSomewhere.textAround ⟨hlength.trans hlength'.symm, ?_, ?_⟩
                (isContainer_of_mem_inside hnested) hlength
              · intro place part part' hpart hpart'
                have hlt := hlength ▸ (List.getElem?_eq_some_iff.mp hpart).1
                have hinner := List.getElem?_eq_getElem hlt
                by_cases hbare : ∃ levels below, depth + 1 + levels = 9 ∧
                    LiesBelow heap levels (value.inside heap)[place] below ∧
                    below.isContainer = false
                · exact .inr (hdiverge place part part' _ hpart hpart' hinner hbare)
                · refine .inl (Shows.unique ?_ (hparts' place part' _ hpart' hinner))
                  refine (hparts place part _ hpart hinner).containers (Nat.succ_le_succ hless) ?_
                  intro levels below hlevels hbelow
                  by_contra hnot
                  exact hbare ⟨levels, below, hlevels, hbelow, Bool.eq_false_iff.mpr hnot⟩
              · obtain ⟨place, hlt, rfl⟩ := List.getElem_of_mem hnested
                have hinner := List.getElem?_eq_getElem hlt
                have hpart := List.getElem?_eq_getElem (hlength.symm ▸ hlt)
                have hpart' := List.getElem?_eq_getElem (hlength'.symm ▸ hlt)
                exact ⟨place, _, _, hpart, hpart', hdiverge place _ _ _ hpart hpart' hinner
                  ⟨levels, below, by omega, hbelow, hbare⟩⟩

/-- If only lists and namespaces are left out, then nothing else lies nine levels below. -/
theorem shows_containers_iff (heap : Heap) (quoted : Bool) (value : Value) :
    Shows heap IsDeepContainer 0 quoted value (value.render heap shownLevels quoted) ↔
      ∀ below, LiesBelow heap 9 value below → below.isContainer = true := by
  have hshows : Shows heap IsDeep 0 quoted value (value.render heap shownLevels quoted) :=
    shows_render heap quoted value (Nat.zero_add _)
  constructor
  · intro hcontainers below hbelow
    by_contra hbare
    exact (hshows.diverge hcontainers (Nat.zero_le 9) (fun h => by cases h)
      ⟨9, below, rfl, hbelow, Bool.eq_false_iff.mpr hbare⟩).ne rfl
  · intro hbelow
    refine hshows.containers (Nat.zero_le 9) fun levels below hlevels hlies => ?_
    rw [Nat.zero_add] at hlevels
    subst hlevels
    exact hbelow below hlies

/-- The text of a value leaves out what lies more than eight levels below, whatever it is, and
nothing else. So it leaves out only lists and namespaces if and only if nothing else lies nine
levels below. -/
theorem elides_containers_iff (heap : Heap) (quoted : Bool) (value : Value) :
    Shows heap IsDeep 0 quoted value (value.render heap shownLevels quoted) ∧
      (Shows heap IsDeepContainer 0 quoted value (value.render heap shownLevels quoted) ↔
        ∀ below, LiesBelow heap 9 value below → below.isContainer = true) :=
  ⟨shows_render heap quoted value (Nat.zero_add _), shows_containers_iff heap quoted value⟩

/-- A value inside nested lists. -/
def nestedIn : Nat → Value → Value
  | 0, value => value
  | levels + 1, value => list [nestedIn levels value]

theorem liesBelow_nestedIn (heap : Heap) (levels : Nat) (value : Value) :
    LiesBelow heap levels (nestedIn levels value) value := by
  induction levels with
  | zero => exact .itself
  | succ levels ih => exact .inside List.mem_cons_self ih

/-- A number inside nine lists is left out. -/
theorem not_forall_shows_containers :
    ¬∀ (heap : Heap) (quoted : Bool) (value : Value),
      Shows heap IsDeepContainer 0 quoted value (value.render heap shownLevels quoted) := by
  intro h
  have hbelow := (shows_containers_iff ⟨#[]⟩ true (nestedIn 9 (.number (.int 1)))).mp (h ..)
  cases hbelow _ (liesBelow_nestedIn ..)

end Script.Value
