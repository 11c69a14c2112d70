import SysYTools.Document.Position

/-!
Spans of program text as messages count them: lines and columns start at one, and the end column is the
column of the last character. The coordinates are integers, since a diagnostic from outside may point to
a place that no text has.
-/

namespace SysYTools

structure Span where
  file : String
  startLine : Int
  startColumn : Int
  endLine : Int
  endColumn : Int
  deriving DecidableEq, Repr

namespace Span

def label (span : Span) : String := s!"{span.file}:{span.startLine}:{span.startColumn}"

/-- Whether a place lies in the span. The place right after the last character does, so that a cursor at
the end of a word is on the word. -/
def contains (span : Span) (line column : Int) : Bool :=
  let fromStart := span.startLine < line || (span.startLine = line && span.startColumn ≤ column)
  let toEnd := line < span.endLine || (line = span.endLine && column ≤ span.endColumn + 1)
  fromStart && toEnd

def through (first last : Span) : Span :=
  { first with endLine := last.endLine, endColumn := last.endColumn }

def point (file : String) (line column : Int) : Span :=
  { file, startLine := line, startColumn := column, endLine := line, endColumn := column }

/-- The same text as an editor counts it. -/
def toRange (span : Span) : Except Fault Range :=
  Range.ofInts (span.startLine - 1) (span.startColumn - 1) (span.endLine - 1) span.endColumn

end Span

end SysYTools
