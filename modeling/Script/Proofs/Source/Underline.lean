/-
# What an underlined span marks

A span between two offsets of a source is underlined line by line: each line that the span
touches is shown, without the carriage returns at its end and with a space for each tab, and
below it a row of carets. The carets stand under the characters that the span covers. If it
covers none of those that are shown, then the row still has a caret, at the place at which
the span begins or, on a later line, at the beginning of the line.

Lines and columns are counted while the source is read, and the lines are cut from the text
on their own. Both agree because positions are in the order of their offsets: a character is
covered if and only if its line and its column are not before those at which the span begins
and are before those at which it ends.
-/

import Mathlib.Data.List.DropRight
import Script.Proofs.Token.Layout
import Script.Source.Span

namespace Script

variable {text line : List Char} {first last offset number column place : Nat}

namespace Position

/-! ## Positions in order -/

/-- A position is before another if its line is or, on one line, if its column is. -/
def Precedes (position other : Position) : Prop :=
  position.line < other.line ∨ position.line = other.line ∧ position.column < other.column

theorem Precedes.trans {position middle other : Position} (h : position.Precedes middle)
    (h' : middle.Precedes other) : position.Precedes other := by
  simp only [Precedes] at *
  omega

theorem precedes_advance (position : Position) (character : Char) :
    position.Precedes (position.advance character) := by
  rw [advance, Precedes]
  split <;> simp

theorem precedes_advanceOver (position : Position) (h : text ≠ []) :
    position.Precedes (position.advanceOver text) := by
  induction text generalizing position with
  | nil => exact (h rfl).elim
  | cons character text ih =>
      have hfirst := precedes_advance position character
      by_cases hrest : text = []
      · simpa [hrest] using hfirst
      · exact hfirst.trans (ih _ hrest)

/-- The position behind the first characters of a text. -/
def afterFirst (text : List Char) (count : Nat) : Position := start.advanceOver (text.take count)

/-- Positions of characters are in the order of the offsets. -/
theorem precedes_afterFirst_iff {bound : Nat} (h : offset < text.length) :
    (afterFirst text offset).Precedes (afterFirst text bound) ↔ offset < bound := by
  have hforward {less more : Nat} (hlt : less < more) (hless : less < text.length) :
      (afterFirst text less).Precedes (afterFirst text more) := by
    have hbetween : (text.take more).drop less ≠ [] := by
      simp only [ne_eq, List.drop_eq_nil_iff, List.length_take]
      omega
    have htake := List.take_append_drop less (text.take more)
    rw [List.take_take, Nat.min_eq_left (Nat.le_of_lt hlt)] at htake
    rw [afterFirst, afterFirst, ← htake, advanceOver_append]
    exact precedes_advanceOver _ hbetween
  refine ⟨fun hprecedes => ?_, fun hlt => hforward hlt h⟩
  obtain hlt | rfl | hgt := Nat.lt_trichotomy offset bound
  · exact hlt
  · simp [Precedes] at hprecedes
  · have hback := hprecedes.trans (hforward hgt (Nat.lt_trans hgt h))
    simp [Precedes] at hback

/-! ## Lines -/

theorem advanceOver_of_notMem (position : Position) (h : '\n' ∉ text) :
    (position.advanceOver text).line = position.line ∧
      (position.advanceOver text).column = position.column + text.length := by
  induction text generalizing position with
  | nil => exact ⟨rfl, rfl⟩
  | cons character text ih =>
      simp only [List.mem_cons, not_or] at h
      obtain ⟨hfirst, hrest⟩ := h
      obtain ⟨hline, hcolumn⟩ := ih (position.advance character) hrest
      rw [advanceOver_cons, hline, hcolumn, advance, if_neg (Ne.symm hfirst), List.length_cons]
      exact ⟨rfl, by rw [Nat.add_assoc, Nat.add_comm 1]⟩

/-- In a row of lines, what stands in front of a line ends where that line begins. -/
theorem exists_append_of_lines {lines : List (List Char)} (position : Position)
    (hposition : position.column = 0) (hlines : ∀ line ∈ lines, '\n' ∉ line)
    (h : lines[place]? = some line) :
    ∃ before behind, ['\n'].intercalate lines = before ++ (line ++ behind) ∧
      (position.advanceOver before).line = position.line + place ∧
      (position.advanceOver before).column = 0 := by
  induction lines generalizing position place with
  | nil => cases h
  | cons head lines ih =>
      obtain ⟨hhead, hlines⟩ := List.forall_mem_cons.mp hlines
      cases place with
      | zero =>
          cases h
          cases lines with
          | nil => exact ⟨[], [], by simp, rfl, hposition⟩
          | cons next lines =>
              exact ⟨[], _, (List.intercalate_cons_cons ..).trans (List.append_assoc ..), rfl,
                hposition⟩
      | succ place =>
          have hsome : lines ≠ [] := List.ne_nil_of_mem (List.mem_of_getElem? h)
          obtain ⟨before, behind, hrest, hline, hcolumn⟩ :=
            ih ((position.advanceOver head).advance '\n') rfl hlines h
          refine ⟨head ++ '\n' :: before, behind, ?_, ?_, ?_⟩
          · rw [List.intercalate_cons_of_ne_nil hsome, hrest]
            simp
          · rw [advanceOver_append, advanceOver_cons, hline, advance, if_pos rfl]
            have := (advanceOver_of_notMem position hhead).1
            simp only [this]
            omega
          · rw [advanceOver_append, advanceOver_cons, hcolumn]

theorem notMem_of_mem_splitOn (h : line ∈ text.splitOn '\n') : '\n' ∉ line := by
  induction text generalizing line with
  | nil =>
      obtain rfl : line = [] := by simpa using h
      exact List.not_mem_nil
  | cons character text ih =>
      rw [List.splitOn_cons_eq_if_modifyHead] at h
      cases hlines : text.splitOn '\n' with
      | nil => exact (List.splitOn_ne_nil _ _ hlines).elim
      | cons head lines =>
          rw [hlines] at h ih
          by_cases hfeed : character = '\n'
          · rw [if_pos (by simpa using hfeed)] at h
            obtain rfl | hmem := List.mem_cons.mp h
            · exact List.not_mem_nil
            · exact ih hmem
          · rw [if_neg (by simpa using hfeed)] at h
            obtain rfl | hmem := List.mem_cons.mp h
            · simpa [Ne.symm hfeed] using ih List.mem_cons_self
            · exact ih (List.mem_cons_of_mem _ hmem)

theorem length_splitOn (text : List Char) :
    (text.splitOn '\n').length = text.count '\n' + 1 := by
  induction text with
  | nil => rfl
  | cons character text ih =>
      rw [List.splitOn_cons_eq_if_modifyHead, List.count_cons]
      split
      · rw [List.length_cons, ih]
      · rw [List.length_modifyHead, ih, Nat.add_zero]

/-- Each character of a line that is cut from a text is at that line and its column. -/
theorem exists_afterFirst (h : (text.splitOn '\n')[place]? = some line)
    (hcolumn : column < line.length) :
    ∃ offset < text.length, (afterFirst text offset).line = place + 1 ∧
      (afterFirst text offset).column = column := by
  have hlines (line : List Char) (hline : line ∈ text.splitOn '\n') : '\n' ∉ line :=
    notMem_of_mem_splitOn hline
  obtain ⟨before, behind, htext, hnumber, hfirst⟩ := exists_append_of_lines start rfl hlines h
  rw [List.intercalate_splitOn] at htext
  have htake : text.take (before.length + column) = before ++ line.take column := by
    rw [htext, List.take_length_add_append, List.take_append_of_le_length (Nat.le_of_lt hcolumn)]
  have hfeed : '\n' ∉ line.take column := fun hmem =>
    hlines line (List.mem_of_getElem? h) (List.mem_of_mem_take hmem)
  obtain ⟨hline, hwidth⟩ := advanceOver_of_notMem (start.advanceOver before) hfeed
  refine ⟨before.length + column, ?_, ?_, ?_⟩
  · rw [htext, List.length_append, List.length_append]
    omega
  · rw [afterFirst, htake, advanceOver_append, hline, hnumber, Nat.add_comm]
    rfl
  · rw [afterFirst, htake, advanceOver_append, hwidth, hfirst, List.length_take]
    omega

end Position

/-! ## The marked lines -/

/-- The span between two offsets of a source. -/
def Source.between (source : Source) (first last : Nat) : Span :=
  ⟨source, Position.afterFirst source.text.toList first,
    Position.afterFirst source.text.toList last⟩

/-- A span between two offsets of a text covers the character at a line and a column. -/
def Covers (text : List Char) (first last number column : Nat) : Prop :=
  ∃ offset < text.length, first ≤ offset ∧ offset < last ∧
    (Position.afterFirst text offset).line = number ∧
    (Position.afterFirst text offset).column = column

/-- A row of carets under a line that is shown marks what the span between two offsets of a
text covers of it. -/
structure Marks (text : List Char) (first last number : Nat) (shown carets : List Char) :
    Prop where
  line : ∃ line, (text.splitOn '\n')[number - 1]? = some line ∧
    shown = (line.rdropWhile (· = '\r')).map fun character =>
      if character = '\t' then ' ' else character
  run : ∃ indent count, 0 < count ∧
    carets = List.replicate indent ' ' ++ List.replicate count '^' ∧
    ((¬∃ column < shown.length, Covers text first last number column) →
      indent =
        if number = (Position.afterFirst text first).line then
          (Position.afterFirst text first).column
        else 0)
  under : (∃ column < shown.length, Covers text first last number column) →
    ∀ column < shown.length,
      (carets[column]? = some '^' ↔ Covers text first last number column)

/-- A character that stands in a text is covered if its place is not before the beginning of
the span and is before its end. -/
theorem covers_iff (source : Source)
    (h : ∃ offset < source.text.toList.length,
      (Position.afterFirst source.text.toList offset).line = number ∧
        (Position.afterFirst source.text.toList offset).column = column) :
    Covers source.text.toList first last number column ↔
      ¬Position.Precedes ⟨0, number, column⟩ (source.between first last).start ∧
        Position.Precedes ⟨0, number, column⟩ (source.between first last).stop := by
  have hplace {offset bound : Nat} (hlt : offset < source.text.toList.length)
      (hline : (Position.afterFirst source.text.toList offset).line = number)
      (hcolumn : (Position.afterFirst source.text.toList offset).column = column) :
      Position.Precedes ⟨0, number, column⟩ (Position.afterFirst source.text.toList bound) ↔
        offset < bound := by
    rw [← Position.precedes_afterFirst_iff hlt]
    simp only [Position.Precedes, hline, hcolumn]
  simp only [Source.between]
  constructor
  · rintro ⟨offset, hlt, hfirst, hlast, hline, hcolumn⟩
    rw [hplace hlt hline hcolumn, hplace hlt hline hcolumn]
    exact ⟨Nat.not_lt_of_le hfirst, hlast⟩
  · obtain ⟨offset, hlt, hline, hcolumn⟩ := h
    rw [hplace hlt hline hcolumn, hplace hlt hline hcolumn]
    rintro ⟨hfirst, hlast⟩
    exact ⟨offset, hlt, Nat.le_of_not_lt hfirst, hlast, hline, hcolumn⟩

namespace Span

theorem splitLines_eq (text : List Char) : splitLines text = text.splitOn '\n' := by
  induction text with
  | nil => rfl
  | cons character text ih =>
      rw [List.splitOn_cons_eq_if_modifyHead, splitLines, ih]
      by_cases hfeed : character = '\n'
      · rw [if_pos hfeed, if_pos (by simpa using hfeed)]
      · rw [if_neg hfeed, if_neg (by simpa using hfeed)]
        cases hlines : text.splitOn '\n' with
        | nil => exact (List.splitOn_ne_nil _ _ hlines).elim
        | cons head lines => rfl

theorem length_shownLine_le (line : List Char) : (shownLine line).length ≤ line.length := by
  rw [shownLine, List.length_map, ← List.rdropWhile]
  exact (List.rdropWhile_prefix _ _).length_le

theorem getElem?_run {indent count column : Nat} :
    (List.replicate indent ' ' ++ List.replicate count '^')[column]? = some '^' ↔
      indent ≤ column ∧ column < indent + count := by
  rw [List.getElem?_append, List.length_replicate]
  split <;> simp only [List.getElem?_replicate] <;> split <;> simp <;> omega

/-- The carets under a line that a span between two offsets touches mark what it covers. -/
theorem marks_caretRow (source : Source)
    (h : (source.text.toList.splitOn '\n')[number - 1]? = some line)
    (hstart : (source.between first last).start.line ≤ number)
    (hstop : number ≤ (source.between first last).stop.line) (hnumber : 0 < number) :
    Marks source.text.toList first last number (shownLine line)
      ((source.between first last).caretRow number (shownLine line)) := by
  have hcovers (column : Nat) (hcolumn : column < (shownLine line).length) :
      Covers source.text.toList first last number column ↔
        (if number = (source.between first last).start.line then
          (source.between first last).start.column else 0) ≤ column ∧
        column < (if number = (source.between first last).stop.line then
          (source.between first last).stop.column else (shownLine line).length) := by
    have hplace := Position.exists_afterFirst h (hcolumn.trans_le (length_shownLine_le line))
    rw [Nat.sub_add_cancel hnumber] at hplace
    rw [covers_iff source hplace]
    simp only [Position.Precedes]
    split <;> split <;> omega
  constructor
  · exact ⟨line, h, rfl⟩
  · exact ⟨_, _, Nat.lt_of_lt_of_le Nat.one_pos (Nat.le_max_right ..), rfl, fun _ => rfl⟩
  · rintro ⟨covered, hcovered, hcover⟩ column hcolumn
    rw [hcovers covered hcovered] at hcover
    rw [hcovers column hcolumn, caretRow, getElem?_run]
    omega

/-- The line with a number as it is shown, and the carets under it. -/
def markedLine (span : Span) (number : Nat) : List Char × List Char :=
  let shown := shownLine ((span.source.text.toList.splitOn '\n')[number - 1]?.getD [])
  (shown, span.caretRow number shown)

theorem underline_eq (span : Span) (h : 0 < span.start.line) :
    span.underline.toList = ['\n'].intercalate
      ((span.lineNumbers.map span.markedLine).map fun (shown, carets) =>
        shown ++ '\n' :: carets) := by
  rw [underline, String.toList_ofList, List.map_map, splitLines_eq]
  refine congrArg _ (List.map_congr_left fun number hnumber => ?_)
  have hpositive : number ≠ 0 := by
    rw [lineNumbers, List.mem_range'_1] at hnumber
    omega
  rw [underlinedLine, if_neg hpositive]
  rfl

theorem start_line_pos (source : Source) (first last : Nat) :
    0 < (source.between first last).start.line := by
  simp only [Source.between, Position.afterFirst, Position.advanceOver_start]
  omega

theorem start_line_le_stop (source : Source) (h : first ≤ last) :
    (source.between first last).start.line ≤ (source.between first last).stop.line := by
  simp only [Source.between, Position.afterFirst, Position.advanceOver_start]
  have hfront : source.text.toList.take first <+: source.text.toList.take last :=
    List.take_prefix_take_left h
  exact Nat.add_le_add_left (hfront.sublist.count_le '\n') 1

theorem stop_line_le_length (source : Source) (first last : Nat) :
    (source.between first last).stop.line ≤ (source.text.toList.splitOn '\n').length := by
  simp only [Source.between, Position.afterFirst, Position.advanceOver_start,
    Position.length_splitOn, Nat.add_comm 1]
  exact Nat.add_le_add_right ((List.take_sublist ..).count_le '\n') 1

end Span

/-- A span between two offsets of a source is underlined with one row of text and one row of
carets for each line from the one on which it begins to the one on which it ends. The first is
the line as it is shown, and the second marks what the span covers of it. -/
theorem Source.underline_between (source : Source) {first last : Nat} (h : first ≤ last) :
    ∃ rows : List (List Char × List Char),
      (source.between first last).underline.toList =
        ['\n'].intercalate (rows.map fun (shown, carets) => shown ++ '\n' :: carets) ∧
      (source.between first last).start.line + rows.length =
        (source.between first last).stop.line + 1 ∧
      ∀ (place : Nat) (shown carets : List Char), rows[place]? = some (shown, carets) →
        Marks source.text.toList first last ((source.between first last).start.line + place)
          shown carets := by
  have hpositive := Span.start_line_pos source first last
  have horder := Span.start_line_le_stop source h
  have hlast := Span.stop_line_le_length source first last
  refine ⟨_, Span.underline_eq _ hpositive, ?_, ?_⟩
  · rw [List.length_map, Span.lineNumbers, List.length_range', Nat.max_eq_left horder]
    omega
  · intro place shown carets hrow
    rw [List.getElem?_map, Option.map_eq_some_iff] at hrow
    obtain ⟨number, hnumber, hrow⟩ := hrow
    cases hrow
    rw [Span.lineNumbers, Nat.max_eq_left horder] at hnumber
    obtain ⟨hplace, rfl⟩ := List.getElem?_eq_some_iff.mp hnumber
    rw [List.length_range'] at hplace
    simp only [List.getElem_range', Nat.one_mul]
    have hline : (source.between first last).start.line + place - 1 <
        (source.text.toList.splitOn '\n').length := by omega
    have hcut := List.getElem?_eq_getElem hline
    rw [show (source.between first last).source = source from rfl, hcut, Option.getD_some]
    exact Span.marks_caretRow source hcut (Nat.le_add_right ..) (by omega) (by omega)

/-- A source in which a span goes on behind a line feed. -/
def Source.twoLines : Source := ⟨"a = (1 +\n 2)", "<test>"⟩

theorem Source.underline_twoLines :
    4 ≤ 12 ∧ (twoLines.between 4 12).underline = "a = (1 +\n    ^^^^\n 2)\n^^^" ∧
      ∃ rows : List (List Char × List Char),
        (twoLines.between 4 12).underline.toList =
          ['\n'].intercalate (rows.map fun (shown, carets) => shown ++ '\n' :: carets) ∧
        (twoLines.between 4 12).start.line + rows.length =
          (twoLines.between 4 12).stop.line + 1 ∧
        ∀ (place : Nat) (shown carets : List Char), rows[place]? = some (shown, carets) →
          Marks twoLines.text.toList 4 12 ((twoLines.between 4 12).start.line + place)
            shown carets :=
  ⟨by decide, by decide, underline_between twoLines (by decide)⟩

end Script
