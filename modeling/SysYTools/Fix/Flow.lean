import SysYTools.Fix.Request
import SysYTools.Repair.Returns

/-!
Fixes for statements that leave a loop or a function.
-/

namespace SysYTools

namespace Fix

def jumpKeyword? (request : Request) : Option String :=
  let keyword : Value :=
    match request.given "keyword" MessagePart.jumpKeyword with
    | .null => .text (String.ofList (Text.strip (Text.dropRightWhile request.text.strip (· == ';'))))
    | value => value
  match keyword with
  | .text "break" => some "break"
  | .text "continue" => some "continue"
  | _ => none

def removeJump : Resolver := fun request =>
  match jumpKeyword? request with
  | none => .ok none
  | some keyword => do
    let range := request.range
    let line := request.document.line range.start.line
    let target ←
      if range.start.line == range.stop.line && line.strip == request.text.strip then
        Range.line range.start.line
      else pure range
    return some (request.replace s!"Remove invalid '{keyword}' statement" target "")

def returnType (request : Request) : String :=
  (request.name? "returnType" MessagePart.returnType).getD BaseType.int.name

def addReturnLater : Resolver := fun request =>
  .ok (some (request.command "Add return statement" .addReturn [request.range.toValue, .text (returnType request)]))

def addReturn : Resolver := fun request =>
  let type := returnType request
  .ok <| (Repair.returnEdit request.document request.range.start type).map fun edit =>
    let value := Literal.placeholder type
    request.edits s!"Insert 'return {value};' at the end of the function" [edit]

def readEmptyReturn : Text.Reader Unit := fun text => do
  let text ← Text.readExactly "return".toList text
  return ((), ← Text.readMark ';' text)

def fillReturn : Resolver := fun request =>
  let line := request.document.line request.startLine
  match (line.occurrences readEmptyReturn 0).head? with
  | none => .ok none
  | some found => do
    let value := Literal.placeholder (returnType request)
    let range ← Range.ofInts request.startLine found.start request.startLine found.stop
    return some (request.replace s!"Return '{value}'" range s!"return {value};")

private def startsWithReturn (text : Text) : Bool :=
  match Text.readExactly "return".toList text with
  | none => false
  | some rest => !rest.head?.any isWordChar

def dropReturnValue : Resolver := fun request =>
  .ok <|
    if startsWithReturn request.text then
      some (request.replace "Remove the return value" request.range "return;")
    else none

end Fix

end SysYTools
