import SysYTools.Rule.Declarations

/-!
Rules about functions: names are defined once, calls fit the functions they mean, and functions give
back what their type says.
-/

namespace SysYTools

namespace Violations

def uniqueFunctions (unit : CompUnit) : List Report :=
  (repeated FuncDef.name unit.functions).map fun func =>
    { problem := .duplicateFunction func.name, span := func.nameSpan }

def definedFunction (linkage : Linkage) (reference : Reference) : List Report :=
  match linkage.target? reference with
  | some _ => []
  | none => [{ problem := .undefinedFunction reference.name, span := reference.span }]

def argumentCount (linkage : Linkage) (reference : Reference) (arguments : List Expr) (span : Span) :
    List Report :=
  match linkage.target? reference with
  | some (.function func) =>
    if func.params.length = arguments.length then []
    else [{ problem := .argumentCount func.name func.params.length arguments.length, span }]
  | _ => []

def voidValue (linkage : Linkage) (parent : Option Node) (reference : Reference) (span : Span) :
    List Report :=
  match linkage.target? reference with
  | some (.function func) =>
    if func.returnType ≠ .void then []
    else
      match parent with
      | some (.stmt (.expr _ _)) => []
      | _ => [{ problem := .voidValue func.name, span }]
  | _ => []

def lastReturn? (body : List BlockItem) : Option (Option Expr × Span) :=
  (body.filterMap fun
    | .stmt (.giveBack value span) => some (value, span)
    | _ => none).getLast?

/-- Only return statements directly in the body count, and of these the last one. -/
def returnShape (func : FuncDef) : List Report :=
  match func.returnType, lastReturn? func.body with
  | .value type, none => [{ problem := .missingReturn func.name type.name, span := func.typeSpan }]
  | .value type, some (none, span) => [{ problem := .emptyReturn func.name type.name, span }]
  | .value _, some (some _, _) => []
  | .void, some (some _, span) => [{ problem := .voidReturnValue func.name, span }]
  | .void, _ => []

end Violations

end SysYTools
