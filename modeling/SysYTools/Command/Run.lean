import SysYTools.Extract.Function
import SysYTools.Fix.Table

/-!
Running commands. A command comes back from an editor with plain values as arguments, and it works on the
text of that time. It has no edits if what it should change is no longer there.
-/

namespace SysYTools

namespace Command

def fixArraySize (document : Document) (name range : Value) : Except Fault (List Edit) := do
  let range ← Range.ofValue range
  match name with
  | .text name =>
    match Repair.declarationLine? document name.toList range.start.line with
    | none => return []
    | some line => return (← Repair.resizeEdit document name.toList line).toList
  | _ => .error .wrongKind

def adjustParameters (document : Document) (range count : Value) : Except Fault (List Edit) := do
  let count ← count.toInt
  let range ← Range.ofValue range
  return (Repair.adjustCallEdit document range.start count fun _ => true).toList

def addReturn (document : Document) (range type : Value) : Except Fault (List Edit) := do
  let range ← Range.ofValue range
  let typeName :=
    match type with
    | .text name => name
    | _ => ""
  return (Repair.returnEdit document range.start typeName).toList

def editsOf? (action : Action) : Option (List Edit) :=
  match action.effect with
  | .edits _ edits => some edits
  | _ => none

/-- Analyses a text again and makes the first fix that touches a range. Only a plain value names a
document whose edits can be given back. -/
def genericFix (settings : Settings) (document : Document) (name range : Value) :
    Except Fault (List Edit) := do
  let target ← Range.ofValue range
  let file := if document.uri == "" then "<stdin>" else document.uri
  let analysis ← analyze file document.text settings.check .standard
  let notices ← analysis.diagnostics.mapM (Notice.ofDiagnostic settings.server.source)
  let requests := (notices.filter (·.range.overlaps target)).zipIdx.map
    fun (notice, number) => { document, notice, number : Request }
  match name with
  | .list _ | .record _ => return []
  | _ => return ((requests.flatMap FixTable.standard.actions).findSome? editsOf?).getD []

private def documentName : Value → String
  | .text name => name
  | _ => ""

def run (settings : Settings) (name : String) (arguments : List Value) (text : Text) :
    Except Fault (List Edit) :=
  let document : Document := { uri := documentName (arguments.headD .null), text }
  match CommandKind.ofName? name, arguments with
  | none, _ => .error (.unknownCommand name)
  | some .fixArraySize, _ :: array :: range :: _ => fixArraySize document array range
  | some .adjustParameters, _ :: range :: count :: _ => adjustParameters document range count
  | some .addReturn, _ :: range :: type :: _ => addReturn document range type
  | some .extractFunction, _ :: range :: _ => do
    Extract.function document (← Range.ofValue range) settings.refactor.functionName
  | some .genericFix, name :: range :: _ => genericFix settings document name range
  | some _, _ => .error .missingArgument

end Command

end SysYTools
