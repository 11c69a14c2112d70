import SysYTools.Fix.Request
import SysYTools.Repair.Calls

/-!
Fixes for calls: the number of arguments, and calls whose missing value is used.
-/

namespace SysYTools

namespace Fix

def arity? (request : Request) : Except Fault (Option (Int × Int)) := do
  let expected ← request.count? "expectedCount" MessagePart.expectedCount
  let actual ← request.count? "actualCount" MessagePart.actualCount
  return do return (← expected, ← actual)

def adjustArgumentsLater : Resolver := fun request => do
  return (← arity? request).map fun (expected, actual) =>
    let title :=
      if expected < actual then "Remove extra arguments"
      else s!"Add {expected - actual} missing argument(s)"
    request.command title .adjustParameters [request.range.toValue, .int expected]

/-- The names that a value allows. Null allows every name, and only a text allows its own name. -/
def allows : Value → Text → Bool
  | .null, _ => true
  | .text name, callee => callee == name.toList
  | _, _ => false

def adjustArguments : Resolver := fun request => do
  return (← arity? request).bind fun (expected, actual) =>
    let edit := Repair.adjustCallEdit request.document request.range.start expected
      (allows (request.payload "functionName"))
    edit.map fun edit =>
      let title :=
        if expected < actual then s!"Reduce call arguments to {expected}"
        else s!"Pad call with {expected - actual} placeholder argument(s)"
      request.edits title [edit]

private def afterWord? (word text : Text) : Option Text := do
  let text ← Text.readExactly word text
  if text.head?.any isBlank then some text.stripLeft else none

/-- A variable with its indices and an equals sign, and nothing after it. -/
private def isAssignmentTail (text : Text) : Bool :=
  match Text.readName text with
  | none => false
  | some (_, rest) => (Text.readMark '=' rest.skipBrackets).any (·.isAllBlank)

def isAssignmentHead (text : Text) : Bool :=
  let text := text.stripLeft
  let afterConst := (afterWord? "const".toList text).getD text
  let afterType := (afterWord? "int".toList afterConst).orElse fun _ => afterWord? "float".toList afterConst
  afterType.any isAssignmentTail || isAssignmentTail text

/-- The number of characters up to and with a semicolon that only white space precedes. -/
private def statementEnd? (text : Text) : Option Nat :=
  (Text.readMark ';' text).map fun rest => text.length - rest.length

def keepCall : Resolver := fun request =>
  let range := request.range
  if range.start.line != range.stop.line then .ok none
  else
    let call := request.text.strip
    let line := request.document.line range.start.line
    match statementEnd? (line.drop range.stop.character) with
    | none => .ok none
    | some length =>
      if call.isEmpty || !isAssignmentHead (line.take range.start.character) then .ok none
      else do
        let whole ← Range.ofInts range.start.line 0 range.start.line (range.stop.character + length)
        return some (request.edits "Call the void function as a statement"
          [{ range := whole, newText := line.indentation ++ call ++ [';'] }])

end Fix

end SysYTools
