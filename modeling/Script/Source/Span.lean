/-
# Spans and their underlining

A span is a half-open range of a source. Besides the text it covers, a span can
be shown as the lines it touches, each followed by a row of carets under the
columns it covers there. A row always has at least one caret, so an empty span
still points at a place.
-/

import Script.Source.Position

namespace Script

/-- The sources in which the two ends of a span are. -/
structure Span.Sources where
  start : Source
  stop : Source
  deriving DecidableEq, Inhabited

/-- Both ends in one source. -/
instance : Coe Source Span.Sources where
  coe source := ⟨source, source⟩

/-- The characters of a source from `start` up to, but not including, `stop`. -/
structure Span where
  sources : Span.Sources
  start : Position
  stop : Position
  deriving DecidableEq, Inhabited

namespace Span

/-- The source in which a span begins. -/
def source (span : Span) : Source := span.sources.start

@[simp] theorem source_mk (sources : Sources) (start stop : Position) :
    source ⟨sources, start, stop⟩ = sources.start := rfl

/-- The span from the beginning of one span to the end of another. -/
def through (first last : Span) : Span :=
  ⟨⟨first.sources.start, last.sources.stop⟩, first.start, last.stop⟩

/-- The empty span at the end of a span. -/
def after (span : Span) : Span :=
  ⟨span.sources.stop, span.stop, span.stop⟩

/-- The line on which a span begins. -/
def line (span : Span) : Nat := span.start.line

/-- The covered characters. -/
def text (span : Span) : String :=
  String.ofList ((span.source.text.toList.drop span.start.offset).take
    (span.stop.offset - span.start.offset))

/-- Cut a text at every line feed. There is always at least one line. -/
def splitLines : List Char → List (List Char)
  | [] => [[]]
  | character :: rest =>
    if character = '\n' then [] :: splitLines rest
    else
      match splitLines rest with
      | [] => [[character]]
      | line :: lines => (character :: line) :: lines

/-- A line as it is shown: carriage returns at its end are dropped and a tab
takes one column. -/
def shownLine (line : List Char) : List Char :=
  (line.reverse.dropWhile (· = '\r')).reverse.map fun character =>
    if character = '\t' then ' ' else character

/-- The row under a shown line: carets from the column where the span begins on
that line to the column where it ends there. -/
def caretRow (span : Span) (number : Nat) (shown : List Char) : List Char :=
  let first := if number = span.start.line then span.start.column else 0
  let last := if number = span.stop.line then span.stop.column else shown.length
  List.replicate first ' ' ++ List.replicate (max (last - first) 1) '^'

/-- The shown line with a given number and the caret row under it. A line that
the text does not have is shown empty. -/
def underlinedLine (span : Span) (lines : List (List Char)) (number : Nat) : List Char :=
  let line := if number = 0 then [] else (lines[number - 1]?).getD []
  let shown := shownLine line
  shown ++ '\n' :: span.caretRow number shown

/-- The numbers of the lines that a span touches. A span always touches the line
on which it begins. -/
def lineNumbers (span : Span) : List Nat :=
  List.range' span.start.line (max span.stop.line span.start.line + 1 - span.start.line)

/-- The touched lines, each with carets under the covered columns. -/
def underline (span : Span) : String :=
  let lines := splitLines span.source.text.toList
  String.ofList (['\n'].intercalate (span.lineNumbers.map (span.underlinedLine lines)))

end Span

end Script
