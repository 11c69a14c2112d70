import SysYTools.Token.Basic

/-!
The tree of a SysY program. Every part knows its span, and names know the span of the word that writes
them. Uses of names are plain references; which declaration they mean is not part of the tree.
-/

namespace SysYTools

inductive BaseType where
  | int
  | float
  deriving DecidableEq, Repr

def BaseType.name : BaseType → String
  | .int => "int"
  | .float => "float"

inductive ReturnType where
  | void
  | value (type : BaseType)
  deriving DecidableEq, Repr

def ReturnType.name : ReturnType → String
  | .void => "void"
  | .value type => type.name

inductive UnaryOp where
  | plus
  | minus
  | not
  deriving DecidableEq, Repr

def UnaryOp.symbol : UnaryOp → String
  | .plus => "+"
  | .minus => "-"
  | .not => "!"

inductive BinaryOp where
  | or
  | and
  | equal | notEqual
  | less | greater | lessEqual | greaterEqual
  | add | subtract
  | multiply | divide | remainder
  deriving DecidableEq, Repr

namespace BinaryOp

def symbol : BinaryOp → String
  | .or => "||"
  | .and => "&&"
  | .equal => "=="
  | .notEqual => "!="
  | .less => "<"
  | .greater => ">"
  | .lessEqual => "<="
  | .greaterEqual => ">="
  | .add => "+"
  | .subtract => "-"
  | .multiply => "*"
  | .divide => "/"
  | .remainder => "%"

/-- How tightly an operator binds: operators of a higher level take their operands first. -/
def level : BinaryOp → Nat
  | .or => 1
  | .and => 2
  | .equal | .notEqual => 3
  | .less | .greater | .lessEqual | .greaterEqual => 4
  | .add | .subtract => 5
  | .multiply | .divide | .remainder => 6

end BinaryOp

structure Reference where
  name : String
  span : Span
  deriving DecidableEq, Repr

inductive Expr where
  | intLit (value : String) (span : Span)
  | floatLit (value : String) (span : Span)
  /-- A variable, or an element of an array. -/
  | lval (reference : Reference) (indices : List Expr) (span : Span)
  | call (reference : Reference) (arguments : List Expr) (span : Span)
  | unary (op : UnaryOp) (operand : Expr) (span : Span)
  | binary (left : Expr) (op : BinaryOp) (right : Expr) (span : Span)
  deriving Repr

def Expr.span : Expr → Span
  | .intLit _ span | .floatLit _ span | .lval _ _ span | .call _ _ span | .unary _ _ span
  | .binary _ _ _ span => span

/-- What stands after the equals sign of a definition. -/
inductive InitVal where
  | expr (value : Expr)
  | list (elements : List InitVal) (span : Span)
  deriving Repr

def InitVal.span : InitVal → Span
  | .expr value => value.span
  | .list _ span => span

structure VarDef where
  name : String
  dims : List Expr
  init : Option InitVal
  span : Span
  nameSpan : Span
  deriving Repr

def VarDef.isArray (var : VarDef) : Bool := !var.dims.isEmpty

structure Decl where
  isConst : Bool
  baseType : BaseType
  defs : List VarDef
  span : Span
  deriving Repr

/-- A parameter. If it is an array, its first dimension is open and `dims` holds the others. -/
structure Param where
  baseType : BaseType
  name : String
  isArray : Bool
  dims : List Expr
  span : Span
  nameSpan : Span
  deriving Repr

mutual

inductive Stmt where
  | block (items : List BlockItem) (span : Span)
  | assign (target : Reference) (indices : List Expr) (targetSpan : Span) (value : Expr) (span : Span)
  /-- An expression, or nothing, before a semicolon. -/
  | expr (value : Option Expr) (span : Span)
  | branch (condition : Expr) (thenPart : Stmt) (elsePart : Option Stmt) (span : Span)
  | loop (condition : Expr) (body : Stmt) (span : Span)
  | breakLoop (span : Span)
  | continueLoop (span : Span)
  | giveBack (value : Option Expr) (span : Span)
  deriving Repr

inductive BlockItem where
  | decl (decl : Decl)
  | stmt (stmt : Stmt)
  deriving Repr

end

def Stmt.span : Stmt → Span
  | .block _ span | .assign _ _ _ _ span | .expr _ span | .branch _ _ _ span | .loop _ _ span
  | .breakLoop span | .continueLoop span | .giveBack _ span => span

structure FuncDef where
  returnType : ReturnType
  name : String
  params : List Param
  body : List BlockItem
  bodySpan : Span
  span : Span
  nameSpan : Span
  typeSpan : Span
  deriving Repr

def Param.signature (param : Param) : String :=
  s!"{param.baseType.name} {param.name}" ++ if param.isArray then "[]" else ""

def FuncDef.signature (func : FuncDef) : String :=
  let params := ", ".intercalate (func.params.map (·.signature))
  s!"{func.returnType.name} {func.name}({params})"

inductive Item where
  | decl (decl : Decl)
  | func (func : FuncDef)
  deriving Repr

structure CompUnit where
  items : List Item
  span : Span
  deriving Repr

def CompUnit.functions (unit : CompUnit) : List FuncDef :=
  unit.items.filterMap fun
    | .func func => some func
    | .decl _ => none

end SysYTools
