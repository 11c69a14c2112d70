import SysYTools.Fix.Request
import SysYTools.Repair.Calls

/-!
Fixes for names: declaring a variable or a function that is used, renaming one that is declared twice,
and removing a variable that is not used.
-/

namespace SysYTools

namespace Fix

def lineStart (line : Nat) : Position :=
  { line, character := 0 }

def variableName? (request : Request) : Option String := request.name? "variableName" MessagePart.quotedName

def functionName? (request : Request) : Option String := request.name? "functionName" MessagePart.quotedName

def declareVariable : Resolver := fun request =>
  .ok <| (variableName? request).map fun name =>
    let indentation := (request.document.line request.startLine).indentation
    request.edits s!"Declare variable '{name}'"
      [.insert (lineStart request.startLine) (indentation ++ s!"int {name} = 0;\n".toList)]

def declareGlobalVariable : Resolver := fun request =>
  .ok <| (variableName? request).map fun name =>
    request.edits s!"Declare global variable '{name}'" [.insert (lineStart 0) s!"int {name} = 0;\n\n".toList]

def renameVariable : Resolver := fun request =>
  .ok <| (variableName? request).map fun name =>
    request.replace s!"Rename variable to '{name}_new'" request.range s!"{name}_new"

def removeUnusedVariable : Resolver := fun request =>
  match variableName? request with
  | none => .ok none
  | some name => do
    let line ← Range.line request.startLine
    return some (request.replace s!"Remove unused variable '{name}'" line "")

def commentOutUnusedVariable : Resolver := fun request =>
  .ok <| (variableName? request).map fun name =>
    request.edits s!"Comment out unused variable '{name}'" [.insert (lineStart request.startLine) "// ".toList]

def functionStub (name : String) (arity : Nat) : String :=
  let params := ", ".intercalate ((List.range arity).map fun i => s!"int param{i + 1}")
  s!"\nint {name}({params}) \x7b\n    return 0;\n\x7d\n"

/-- Declares a function at the end of the document, with as many parameters as its call has
arguments. -/
def declareFunction : Resolver := fun request =>
  .ok <| (functionName? request).map fun name =>
    let document := request.document
    let offset := document.offsetAt request.range.start
    let call := Repair.findCall? document.text offset (· == name.toList)
    let arity := (call.map (·.arguments.length)).getD 0
    let lead := if document.text.getLast?.all (· == '\n') then "" else "\n"
    request.edits s!"Declare function '{name}'"
      [.insert (document.positionAt document.text.length) (lead ++ functionStub name arity).toList]

def renameFunction : Resolver := fun request =>
  .ok <| (functionName? request).map fun name =>
    request.replace s!"Rename function to '{name}_new'" request.range s!"{name}_new"

end Fix

end SysYTools
