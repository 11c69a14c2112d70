import SysYTools.Analysis
import SysYTools.Extract.Selection
import SysYTools.Repair.Returns
import SysYTools.Text.Margin

/-!
Moving a part of a function into a function of its own. The locals of the old function that the part uses
become parameters. A part that declares a local which the rest of the function uses stays where it is.
-/

namespace SysYTools

/-- The first of `base`, `base1`, `base2` and so on that is not taken. -/
def freshName (base : String) (taken : List String) : String :=
  if taken.contains base then
    (((List.range (taken.length + 1)).map fun number => s!"{base}{number + 1}").find? (!taken.contains ·)).getD base
  else base

namespace Extract

def variableUses (func : FuncDef) : List (Reference × Span) :=
  (Node.stmt func.block).walk.filterMap fun
    | .expr (.lval reference _ span) => some (reference, span)
    | _ => none

def localVariables (func : FuncDef) : List VarDef :=
  (Node.func func).walk.filterMap fun
    | .varDef var => some var
    | _ => none

def localPlaces (func : FuncDef) : List Span := func.params.map (·.nameSpan) ++ (localVariables func).map (·.nameSpan)

def declaredPlaces (selection : Selection) (func : FuncDef) : List Span :=
  ((localVariables func).filter fun var => selection.covers var.span).map (·.nameSpan)

def escapes (selection : Selection) (linkage : Linkage) (func : FuncDef) : Bool :=
  let declared := declaredPlaces selection func
  (variableUses func).any fun (reference, span) =>
    !selection.covers span && (linkage.target? reference).any (declared.contains ·.nameSpan)

/-- The locals of the function around the selection that the selection uses, in the order of their first
use. -/
def captured (selection : Selection) (linkage : Linkage) (func : FuncDef) : List Declaration :=
  let declared := declaredPlaces selection func
  let places := localPlaces func
  (variableUses func).foldl
    (fun found (reference, span) =>
      match linkage.target? reference with
      | none => found
      | some target =>
        let place := target.nameSpan
        if selection.covers span && places.contains place && !declared.contains place &&
            !found.any (·.nameSpan == place) then
          found ++ [target]
        else found)
    []

/-- A declaration as a parameter. The first dimension of an array is open. -/
def parameterText (document : Document) (declaration : Declaration) : Text :=
  let head := s!"{declaration.typeName} {declaration.name}".toList
  let dimension (dim : Expr) : Text :=
    let (start, stop) := document.offsetsOf dim.span
    '[' :: document.text.slice start stop ++ [']']
  let furtherDims : Option (List Expr) :=
    match declaration with
    | .variable _ var => if var.isArray then some (var.dims.drop 1) else none
    | .parameter param => if param.isArray then some param.dims else none
    | .function _ => none
  match furtherDims with
  | none => head
  | some dims => head ++ ['[', ']'] ++ dims.flatMap dimension

def usesFloat (linkage : Linkage) (expression : Expr) : Bool :=
  (Node.expr expression).walk.any fun
    | .expr (.floatLit _ _) => true
    | .expr (.lval reference _ _) => (linkage.target? reference).any (·.typeName == BaseType.float.name)
    | _ => false

def statementsText (selection : Selection) : Text :=
  let text := selection.document.text
  let lineStart := text.lineStart selection.start
  let block :=
    if (text.slice lineStart selection.start).isAllBlank then
      (text.slice lineStart selection.stop).dedent
    else selection.text
  let isFeed (c : Char) : Bool := c == '\n'
  Text.indent (Text.dropRightWhile (block.dropWhile isFeed) isFeed) Repair.indentUnit

def functionText (typeName name : String) (params body : Text) : Text :=
  s!"{typeName} {name}(".toList ++ params ++ ") \x7b\n".toList ++ body ++ "\n\x7d\n\n".toList

/-- The edits that move a part into a function with a given name and call it where the part was. -/
def edits (selection : Selection) (linkage : Linkage) (func : FuncDef) (part : Selection.Part)
    (name : String) : List Edit :=
  let locals := captured selection linkage func
  let params := [',', ' '].intercalate (locals.map (parameterText selection.document))
  let call := s!"{name}(" ++ ", ".intercalate (locals.map (·.name)) ++ ")"
  let (newFunction, replacement) :=
    match part with
    | .statements => (functionText ReturnType.void.name name params (statementsText selection), call ++ ";")
    | .expression expression =>
      let type : BaseType := if usesFloat linkage expression then .float else .int
      let body := Repair.indentUnit ++ "return ".toList ++ selection.text ++ [';']
      (functionText type.name name params body, call)
  [ .insert { line := (func.span.startLine - 1).toNat, character := 0 } newFunction,
    { range := selection.document.rangeOf selection.start selection.stop
      newText := replacement.toList } ]

/-- The name of the new function. A text is made distinct from the global names, and other plain values
are written as they are. -/
def functionName (base : Value) (taken : List String) : Except Fault String :=
  match base with
  | .text base => .ok (freshName base taken)
  | .list _ | .record _ => .error .wrongKind
  | value => .ok value.display

/-- Moves the text of a range into a new function before the function that holds it. There are no edits
where that is not possible. -/
def function (document : Document) (range : Range) (base : Value) : Except Fault (List Edit) :=
  match Selection.ofRange? document range, CompUnit.ofText document.uri document.text with
  | some selection, .ok unit => do
    let linkage ← unit.link.mapError (·.fault)
    match unit.functions.find? fun func => selection.isWithin func.span with
    | none => return []
    | some func =>
      match selection.part? func with
      | none => return []
      | some part =>
        if escapes selection linkage func then return []
        else
          let name ← functionName base (linkage.table.global.entries.map (·.name))
          return edits selection linkage func part name
  | _, _ => .ok []

end Extract

end SysYTools
