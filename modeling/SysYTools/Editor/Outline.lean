import SysYTools.Editor.Hover

/-!
The outline of a program: its global variables and its functions, with the parameters below them.
-/

namespace SysYTools

inductive OutlineKind where
  | function
  | variable
  | constant
  | array
  deriving DecidableEq, Repr

structure OutlineName where
  name : String
  kind : OutlineKind
  detail : String
  range : Range
  selection : Range

/-- A name of the outline. Only functions have others below them. -/
structure OutlineEntry where
  head : OutlineName
  children : Option (List OutlineName)

namespace OutlineName

def ofVariable (decl : Decl) (var : VarDef) : Except Fault OutlineName := do
  return {
    name := var.name
    kind := if var.isArray then .array else if decl.isConst then .constant else .variable
    detail := (if decl.isConst then "const " else "") ++ decl.baseType.name ++ Hover.brackets var.dims.length
    range := ← var.span.toRange
    selection := ← var.nameSpan.toRange }

def ofParameter (param : Param) : Except Fault OutlineName := do
  return {
    name := param.name
    kind := .variable
    detail := param.baseType.name ++ if param.isArray then "[]" else ""
    range := ← param.span.toRange
    selection := ← param.nameSpan.toRange }

def ofFunction (func : FuncDef) : Except Fault OutlineName := do
  return {
    name := func.name
    kind := .function
    detail := func.signature
    range := ← func.span.toRange
    selection := ← func.nameSpan.toRange }

end OutlineName

private def outlineOfItem : Item → Except Fault (List OutlineEntry)
  | .decl decl => decl.defs.mapM fun var => do return { head := ← OutlineName.ofVariable decl var, children := none }
  | .func func => do
    let head ← OutlineName.ofFunction func
    return [{ head, children := some (← func.params.mapM OutlineName.ofParameter) }]

def CompUnit.outline (unit : CompUnit) : Except Fault (List OutlineEntry) := do
  return (← unit.items.mapM outlineOfItem).flatten

end SysYTools
