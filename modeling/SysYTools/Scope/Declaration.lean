import SysYTools.Literal

/-!
Declarations: what a use of a name can mean. The functions of the library of the language are
declarations too; they stand in no program, so all their spans are one and the same place.
-/

namespace SysYTools

inductive Declaration where
  /-- A variable, with the declaration that defines it. -/
  | variable (decl : Decl) (var : VarDef)
  | parameter (param : Param)
  | function (func : FuncDef)
  deriving Repr

inductive SymbolKind where
  | variable
  | array
  | function
  | parameter
  deriving DecidableEq, Repr

namespace Declaration

def name : Declaration → String
  | .variable _ var => var.name
  | .parameter param => param.name
  | .function func => func.name

def nameSpan : Declaration → Span
  | .variable _ var => var.nameSpan
  | .parameter param => param.nameSpan
  | .function func => func.nameSpan

def kind : Declaration → SymbolKind
  | .variable _ var => if var.isArray then .array else .variable
  | .parameter _ => .parameter
  | .function _ => .function

def isFunction : Declaration → Bool
  | .function _ => true
  | _ => false

def typeName : Declaration → String
  | .variable decl _ => decl.baseType.name
  | .parameter param => param.baseType.name
  | .function func => func.returnType.name

def isConst : Declaration → Bool
  | .variable decl _ => decl.isConst
  | _ => false

def initCount : Declaration → Option Nat
  | .variable _ { init := some (.list elements _), .. } => some elements.length
  | _ => none

def literalDims (dims : List Expr) : Except Fault (List (Option Int)) :=
  dims.mapM fun
    | .intLit value _ => some <$> Literal.intValue value
    | _ => pure none

/-- The sizes of the dimensions, where they are literals. The first dimension of a parameter is open. -/
def dims : Declaration → Except Fault (List (Option Int))
  | .variable _ var => literalDims var.dims
  | .parameter param => do
    let rest ← literalDims param.dims
    return if param.isArray then none :: rest else []
  | .function _ => return []

end Declaration

namespace Library

/-- The file of the functions that stand in no program. -/
def file : String := "<runtime>"

private def span : Span := Span.point file 1 1

private def parameter (baseType : BaseType) (name : String) (isArray : Bool) : Param :=
  { baseType, name, isArray, dims := [], span, nameSpan := span }

private def function (returnType : ReturnType) (name : String) (params : List Param) : FuncDef :=
  { returnType, name, params, body := [], bodySpan := span, span, nameSpan := span, typeSpan := span }

/-- The functions that every program can call. -/
def functions : List FuncDef :=
  [ function (.value .int) "getint" [],
    function (.value .int) "getch" [],
    function (.value .float) "getfloat" [],
    function (.value .int) "getarray" [parameter .int "a" true],
    function (.value .int) "getfarray" [parameter .float "a" true],
    function .void "putint" [parameter .int "a" false],
    function .void "putch" [parameter .int "a" false],
    function .void "putfloat" [parameter .float "a" false],
    function .void "putarray" [parameter .int "n" false, parameter .int "a" true],
    function .void "putfarray" [parameter .int "n" false, parameter .float "a" true],
    function .void "starttime" [],
    function .void "stoptime" [] ]

end Library

def FuncDef.isLibrary (func : FuncDef) : Bool := func.span.file == Library.file

/-- Whether a declaration stands in no program. -/
def Declaration.isLibrary : Declaration → Bool
  | .function func => func.isLibrary
  | _ => false

end SysYTools
