import SysYTools.Problem

/-!
Diagnostics: problems in the form in which they are shown. The message may hold more than the problem
says, and a diagnostic may point to several places or to none.
-/

namespace SysYTools

structure Label where
  span : Span
  message : String
  deriving DecidableEq, Repr

structure Diagnostic where
  severity : Severity
  code : Code
  message : String
  labels : List Label
  category : Category
  data : List (String × Value)
  deriving Repr

namespace Diagnostic

def span? (diagnostic : Diagnostic) : Option Span := diagnostic.labels.head?.map (·.span)

/-- A problem as it is, without an explanation. -/
def ofReport (report : Report) : Diagnostic :=
  { severity := report.problem.severity
    code := report.problem.code
    message := report.problem.message
    labels := [{ span := report.span, message := "" }]
    category := report.problem.category
    data := report.problem.payload }

def summary (diagnostics : List Diagnostic) : String :=
  s!"{diagnostics.length} error(s): " ++ "; ".intercalate (diagnostics.map (·.message))

def hasErrors (diagnostics : List Diagnostic) : Bool := diagnostics.any (·.severity == .error)

end Diagnostic

end SysYTools
