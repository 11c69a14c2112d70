import SysYTools.Tree.Node

/-!
The kinds of nodes, one for each form that a part of a program can have, and the names by which tools
know them.
-/

namespace SysYTools

inductive NodeKind where
  | unit | decl | varDef | initList | func | param
  | block | assign | exprStmt | branch | loop | breakLoop | continueLoop | giveBack
  | intLit | floatLit | lval | call | unary | binary
  deriving DecidableEq, Repr

namespace NodeKind

def name : NodeKind → String
  | .unit => "CompUnit"
  | .decl => "Decl"
  | .varDef => "VarDef"
  | .initList => "InitList"
  | .func => "FuncDef"
  | .param => "Param"
  | .block => "Block"
  | .assign => "AssignStmt"
  | .exprStmt => "ExprStmt"
  | .branch => "IfStmt"
  | .loop => "WhileStmt"
  | .breakLoop => "BreakStmt"
  | .continueLoop => "ContinueStmt"
  | .giveBack => "ReturnStmt"
  | .intLit => "IntLit"
  | .floatLit => "FloatLit"
  | .lval => "LVal"
  | .call => "CallExpr"
  | .unary => "UnaryExpr"
  | .binary => "BinaryExpr"

def all : List NodeKind :=
  [.unit, .decl, .varDef, .initList, .func, .param, .block, .assign, .exprStmt, .branch, .loop,
    .breakLoop, .continueLoop, .giveBack, .intLit, .floatLit, .lval, .call, .unary, .binary]

def ofName (name : String) : Except Fault NodeKind :=
  match all.find? (·.name == name) with
  | some kind => .ok kind
  | none => .error (.noSuchKind name)

end NodeKind

namespace Node

def kind : Node → NodeKind
  | .unit _ => .unit
  | .decl _ => .decl
  | .varDef _ => .varDef
  | .initList _ _ => .initList
  | .func _ => .func
  | .param _ => .param
  | .stmt (.block _ _) => .block
  | .stmt (.assign _ _ _ _ _) => .assign
  | .stmt (.expr _ _) => .exprStmt
  | .stmt (.branch _ _ _ _) => .branch
  | .stmt (.loop _ _ _) => .loop
  | .stmt (.breakLoop _) => .breakLoop
  | .stmt (.continueLoop _) => .continueLoop
  | .stmt (.giveBack _ _) => .giveBack
  | .expr (.intLit _ _) => .intLit
  | .expr (.floatLit _ _) => .floatLit
  | .expr (.lval _ _ _) => .lval
  | .expr (.call _ _ _) => .call
  | .expr (.unary _ _ _) => .unary
  | .expr (.binary _ _ _ _) => .binary

def Site.isLocal (site : Site) : Bool := site.ancestors.any (·.kind == .func)

end Node

end SysYTools
