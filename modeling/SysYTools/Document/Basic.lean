import SysYTools.Document.Position
import SysYTools.Text.Lines

/-!
A document is a text with a name. Its lines end at line feeds only. Positions beyond the text stand for
its end, and characters beyond a line for the end of that line.
-/

namespace SysYTools

structure Document where
  uri : String
  text : Text

namespace Document

def lines (document : Document) : List Text := document.text.lines

def line (document : Document) (number : Nat) : Text := (document.lines[number]?).getD []

def offsetAt (document : Document) (position : Position) : Nat :=
  match document.lines.drop position.line with
  | [] => document.text.length
  | line :: _ =>
    (document.lines.take position.line).foldr (fun before total => before.length + 1 + total) 0 +
      min position.character line.length

/-- The position of an offset. Offsets beyond the text stand for its end. -/
def positionAt (document : Document) (offset : Nat) : Position :=
  let before := document.text.take offset
  { line := before.count '\n'
    character := (before.reverse.takeWhile (· != '\n')).length }

/-- The position of an offset that may lie before the text. -/
def positionNear (document : Document) (offset : Int) : Position := document.positionAt offset.toNat

/-- A line whose number may be negative. -/
def lineNear (document : Document) (number : Int) : Text := if number < 0 then [] else document.line number.toNat

/-- The text of a range. It is empty when the range is reversed. -/
def textIn (document : Document) (range : Range) : Text :=
  document.text.slice (document.offsetAt range.start) (document.offsetAt range.stop)

def rangeOf (document : Document) (start stop : Nat) : Range :=
  { start := document.positionAt start, stop := document.positionAt stop }

end Document

end SysYTools
