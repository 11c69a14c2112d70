import SysYTools.Document.Basic
import SysYTools.Rule.Book

/-!
What an editor shows about the node at a position: its declaration in short, and where that stands.
-/

namespace SysYTools

namespace Program

def pathAt (document : Document) (offset : Int) (node : Node) : List Node.Site :=
  let position := document.positionNear offset
  node.pathTo (position.line + 1) (position.character + 1)

def siteAt (program : Program) (document : Document) (position : Position) : Option Node.Site :=
  (pathAt document (document.offsetAt position) (.unit program.unit)).getLast?

end Program

namespace Hover

/-- Names that are shown as integers even if nothing declares them. -/
def integerNames : List String := ["decimal", "octal", "hex"]

/-- The type of a variable: from its declaration, or else from its initializer or its name. -/
def variableType (decl : Option Decl) (var : VarDef) : String :=
  match decl with
  | some decl => decl.baseType.name
  | none =>
    let fromLiteral :=
      match var.init with
      | some (.expr (.intLit value _)) | some (.expr (.floatLit value _)) => Literal.typeOf? value.toList
      | _ => none
    match fromLiteral with
    | some type => type.name
    | none => if integerNames.contains var.name then BaseType.int.name else "unknown"

def brackets (count : Nat) : String := String.join (List.replicate count "[]")

private def paragraphs (lines : List String) : String := "\n\n".intercalate lines

def ofVariable (decl : Option Decl) (var : VarDef) : String :=
  let const := if decl.any (·.isConst) then "const " else ""
  let type := const ++ variableType decl var ++ brackets var.dims.length
  let dims := if var.isArray then [s!"array with {var.dims.length} dimension(s)"] else []
  let init := if var.init.isSome then ["initialized"] else []
  paragraphs (s!"**(variable) {var.name}: {type}**" :: dims ++ init)

def ofParameter (param : Param) : String :=
  let suffix := if param.isArray then "[]" else ""
  paragraphs (s!"**(parameter) {param.name}: {param.baseType.name}{suffix}**" ::
    if param.isArray then ["array parameter"] else [])

def ofFunction (func : FuncDef) : String :=
  let param (param : Param) : String :=
    s!"- {param.name}: {param.baseType.name}" ++ if param.isArray then " (array)" else ""
  let params := if func.params.isEmpty then "no parameters" else "\n".intercalate (func.params.map param)
  paragraphs [s!"**(function) {func.signature}**", s!"returns `{func.returnType.name}`", params]

def declOf? (site : Node.Site) : Option Decl :=
  match site.parent? with
  | some (.decl decl) => some decl
  | _ => none

def ofSite (linkage : Linkage) (site : Node.Site) : Option String :=
  match site.node with
  | .expr (.lval reference _ _) =>
    match linkage.target? reference with
    | some (.variable decl var) => some (ofVariable (some decl) var)
    | some (.parameter param) => some (ofParameter param)
    | _ =>
      if integerNames.contains reference.name then
        some s!"**(variable) {reference.name}: {BaseType.int.name}**"
      else none
  | .expr (.call reference _ _) =>
    match linkage.target? reference with
    | some (.function func) => some (ofFunction func)
    | _ => none
  | .func func => some (ofFunction func)
  | .varDef var => some (ofVariable (declOf? site) var)
  | .param param => some (ofParameter param)
  | _ => none

end Hover

structure Hover where
  text : String
  range : Range

namespace Program

def hover (program : Program) (document : Document) (position : Position) :
    Except Fault (Option Hover) :=
  match program.siteAt document position with
  | none => .ok none
  | some site =>
    match Hover.ofSite program.linkage site with
    | none => .ok none
    | some text => do return some { text, range := ← site.node.span.toRange }

/-- The range of the name that the use at a position means. Functions of the library have none. -/
def definition (program : Program) (document : Document) (position : Position) :
    Except Fault (Option Range) :=
  let target? :=
    match (program.siteAt document position).map (·.node) with
    | some (.expr (.lval reference _ _)) | some (.expr (.call reference _ _)) => program.linkage.target? reference
    | _ => none
  match target? with
  | some target => if target.isLibrary then .ok none else some <$> target.nameSpan.toRange
  | none => .ok none

end Program

end SysYTools
