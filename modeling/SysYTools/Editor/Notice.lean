import SysYTools.Analysis
import SysYTools.Document.Basic

/-!
Notices: diagnostics as an editor gets them and sends them back. What comes back need not be what was
sent, so the code may be a number or missing, and the data may be anything.
-/

namespace SysYTools

structure Notice where
  range : Range
  severity : Option Severity
  code : Option String
  source : Option String
  message : String
  data : Value

namespace Notice

def sourceName : Value → Except Fault (Option String)
  | .text name => .ok (some name)
  | .null => .ok none
  | _ => .error .wrongKind

/-- A diagnostic as a notice. The category is added to its data. -/
def ofDiagnostic (source : Value) (diagnostic : Diagnostic) : Except Fault Notice := do
  let range ←
    match diagnostic.span? with
    | some span => span.toRange
    | none => pure Range.origin
  return {
    range
    severity := some diagnostic.severity
    code := some diagnostic.code.name
    source := ← sourceName source
    message := diagnostic.message
    data := .record (diagnostic.data ++ [("category", .text diagnostic.category.name)]) }

def ofFault (source : Value) (fault : Fault) : Except Fault Notice := do
  return {
    range := Range.origin
    severity := some .error
    code := none
    source := ← sourceName source
    message := s!"[internal] analysis error: {fault.message}"
    data := .null }

end Notice

def Document.analyze (document : Document) (settings : Settings) :
    Except Fault (Option Analysis × List Notice) :=
  match SysYTools.analyze document.uri document.text settings.check .standard with
  | .error fault => do return (none, [← Notice.ofFault settings.server.source fault])
  | .ok analysis => do
    return (some analysis, ← analysis.diagnostics.mapM (Notice.ofDiagnostic settings.server.source))

end SysYTools
