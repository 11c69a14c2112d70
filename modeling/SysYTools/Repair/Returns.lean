import SysYTools.Document.Edit
import SysYTools.Literal
import SysYTools.Text.Bracket

/-!
Adding a return statement at the end of a function in raw text.
-/

namespace SysYTools

namespace Repair

def indentUnit : Text := [' ', ' ', ' ', ' ']

def returnText (typeName : String) : Text := s!"return {Literal.placeholder typeName};".toList

def innerIndentation? (document : Document) (first last : Nat) : Option Text :=
  let between := (document.lines.take last).drop (first + 1)
  (between.reverse.find? (!·.isAllBlank)).map (·.indentation)

def returnEdit (document : Document) (start : Position) (typeName : String) : Option Edit := do
  let opening ← document.text.find? '\x7b' (document.offsetAt start)
  let closing ← document.text.closingIndex? opening
  let place := document.positionAt closing
  let line := document.line place.line
  if Text.isAllBlank (line.take place.character) then
    let first := (document.positionAt opening).line
    let indentation := (innerIndentation? document first place.line).getD (line.indentation ++ indentUnit)
    return Edit.insert { line := place.line, character := 0 } (indentation ++ returnText typeName ++ ['\n'])
  else
    return Edit.insert place (returnText typeName ++ [' '])

end Repair

end SysYTools
