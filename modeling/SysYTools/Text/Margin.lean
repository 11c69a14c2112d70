import SysYTools.Text.Blank
import SysYTools.Text.Lines

/-!
The margin of a block of lines: removing the blanks and tabs that all its lines share, and putting a
margin in front of each line that holds text.
-/

namespace SysYTools

namespace Text

def commonStart : Text → Text → Text
  | c :: left, d :: right => if c = d then c :: commonStart left right else []
  | _, _ => []

def hasInk (line : Text) : Bool := line.any fun c => c != ' ' && c != '\t'

/-- The indentation that all lines with ink share, or none if there is no such line. -/
def sharedMargin (lines : List Text) : Option Text :=
  (lines.filter hasInk).foldl
    (fun margin line =>
      match margin with
      | none => some line.indentation
      | some shared => some (commonStart shared line.indentation))
    none

def joinLines (lines : List Text) : Text := ['\n'].intercalate lines

/-- Removes the margin that all lines with ink share. The other lines become empty. -/
def dedent (text : Text) : Text :=
  let lines := text.lines
  let margin := (sharedMargin lines).getD []
  joinLines (lines.map fun line => if line.hasInk then line.drop margin.length else [])

/-- Puts `margin` in front of every printed line that is not blank. -/
def indent (text margin : Text) : Text :=
  text.boundedLines.flatMap fun (line, boundary) =>
    if line.isAllBlank then line ++ boundary else margin ++ line ++ boundary

end Text

end SysYTools
