import SysYTools.Proofs.Tree.Shape
import SysYTools.Tree.Kind

/-!
A relocation moves all places of a tree and leaves the rest of it alone. The places of the words that use a
name or define a variable are moved on their own: linking and checking compare them with each other, and they
do not compare other places. So the walk over a relocated tree meets the relocated parts, in the same order.
-/

namespace SysYTools

open List

/-- Where places go: the words that use a name or define a variable, and all else. -/
structure Relocation where
  word : Span → Span
  place : Span → Span

/-- All places go the same way. -/
abbrev Relocation.all (move : Span → Span) : Relocation := ⟨move, move⟩

/-- The words are pinned, and all other places are forgotten. -/
abbrev Relocation.pinned (pin : Span → Span) : Relocation := ⟨pin, fun _ => .nowhere⟩

/-! ## Relocated trees -/

section Relocations

variable (move : Relocation)

def Reference.relocate (reference : Reference) : Reference :=
  { reference with span := move.word reference.span }

mutual

def Expr.relocate : Expr → Expr
  | .intLit value span => .intLit value (move.place span)
  | .floatLit value span => .floatLit value (move.place span)
  | .lval reference indices span => .lval (reference.relocate move) (Expr.relocateAll indices) (move.place span)
  | .call reference arguments span => .call (reference.relocate move) (Expr.relocateAll arguments) (move.place span)
  | .unary op operand span => .unary op operand.relocate (move.place span)
  | .binary left op right span => .binary left.relocate op right.relocate (move.place span)

def Expr.relocateAll : List Expr → List Expr
  | [] => []
  | first :: rest => first.relocate :: Expr.relocateAll rest

end

mutual

def InitVal.relocate : InitVal → InitVal
  | .expr value => .expr (value.relocate move)
  | .list elements span => .list (InitVal.relocateAll elements) (move.place span)

def InitVal.relocateAll : List InitVal → List InitVal
  | [] => []
  | first :: rest => first.relocate :: InitVal.relocateAll rest

end

def VarDef.relocate (var : VarDef) : VarDef :=
  { name := var.name, dims := var.dims.map (·.relocate move), init := var.init.map (·.relocate move)
    span := move.place var.span, nameSpan := move.word var.nameSpan }

def Decl.relocate (decl : Decl) : Decl :=
  { decl with defs := decl.defs.map (·.relocate move), span := move.place decl.span }

def Param.relocate (param : Param) : Param :=
  { param with
    dims := param.dims.map (·.relocate move), span := move.place param.span
    nameSpan := move.place param.nameSpan }

mutual

def Stmt.relocate : Stmt → Stmt
  | .block items span => .block (BlockItem.relocateAll items) (move.place span)
  | .assign target indices targetSpan value span =>
    .assign (target.relocate move) (Expr.relocateAll move indices) (move.place targetSpan) (value.relocate move)
      (move.place span)
  | .expr value span => .expr (value.map (·.relocate move)) (move.place span)
  | .branch condition thenPart none span => .branch (condition.relocate move) thenPart.relocate none (move.place span)
  | .branch condition thenPart (some elsePart) span =>
    .branch (condition.relocate move) thenPart.relocate (some elsePart.relocate) (move.place span)
  | .loop condition body span => .loop (condition.relocate move) body.relocate (move.place span)
  | .breakLoop span => .breakLoop (move.place span)
  | .continueLoop span => .continueLoop (move.place span)
  | .giveBack value span => .giveBack (value.map (·.relocate move)) (move.place span)

def BlockItem.relocateAll : List BlockItem → List BlockItem
  | [] => []
  | first :: rest => first.relocate :: BlockItem.relocateAll rest

def BlockItem.relocate : BlockItem → BlockItem
  | .decl declaration => .decl (declaration.relocate move)
  | .stmt statement => .stmt statement.relocate

end

def FuncDef.relocate (func : FuncDef) : FuncDef :=
  { returnType := func.returnType, name := func.name, params := func.params.map (·.relocate move)
    body := func.body.map (·.relocate move), bodySpan := move.place func.bodySpan
    span := move.place func.span, nameSpan := move.place func.nameSpan, typeSpan := move.place func.typeSpan }

def Item.relocate : Item → Item
  | .decl declaration => .decl (declaration.relocate move)
  | .func function => .func (function.relocate move)

def CompUnit.relocate (unit : CompUnit) : CompUnit :=
  { items := unit.items.map (·.relocate move), span := move.place unit.span }

def Node.relocate : Node → Node
  | .unit program => .unit (program.relocate move)
  | .decl declaration => .decl (declaration.relocate move)
  | .varDef var => .varDef (var.relocate move)
  | .initList elements span => .initList (elements.map (·.relocate move)) (move.place span)
  | .func function => .func (function.relocate move)
  | .param parameter => .param (parameter.relocate move)
  | .stmt statement => .stmt (statement.relocate move)
  | .expr expression => .expr (expression.relocate move)

def Node.Site.relocate (site : Node.Site) : Node.Site :=
  { node := site.node.relocate move, ancestors := site.ancestors.map (·.relocate move) }

end Relocations

variable {move : Relocation}

@[simp] theorem Expr.relocateAll_eq (list : List Expr) : Expr.relocateAll move list = list.map (·.relocate move) := by
  induction list with
  | nil => rfl
  | cons _ _ ih => rw [Expr.relocateAll, ih, map_cons]

@[simp] theorem InitVal.relocateAll_eq (list : List InitVal) :
    InitVal.relocateAll move list = list.map (·.relocate move) := by
  induction list with
  | nil => rfl
  | cons _ _ ih => rw [InitVal.relocateAll, ih, map_cons]

@[simp] theorem BlockItem.relocateAll_eq (list : List BlockItem) :
    BlockItem.relocateAll move list = list.map (·.relocate move) := by
  induction list with
  | nil => rfl
  | cons _ _ ih => rw [BlockItem.relocateAll, ih, map_cons]

@[simp] theorem Expr.span_relocate (expr : Expr) : (expr.relocate move).span = move.place expr.span := by
  cases expr <;> rfl

@[simp] theorem Stmt.span_relocate (stmt : Stmt) : (stmt.relocate move).span = move.place stmt.span := by
  cases stmt with
  | branch _ _ elsePart => cases elsePart <;> rfl
  | _ => rfl

@[simp] theorem InitVal.span_relocate (init : InitVal) : (init.relocate move).span = move.place init.span := by
  cases init with
  | expr value => exact value.span_relocate
  | list => rfl

/-! ## Walks -/

namespace Node

@[simp] theorem relocate_varDef (var : VarDef) : (Node.varDef var).relocate move = .varDef (var.relocate move) := rfl

@[simp] theorem relocate_param (param : Param) : (Node.param param).relocate move = .param (param.relocate move) := rfl

@[simp] theorem relocate_stmt (stmt : Stmt) : (Node.stmt stmt).relocate move = .stmt (stmt.relocate move) := rfl

@[simp] theorem relocate_expr (expr : Expr) : (Node.expr expr).relocate move = .expr (expr.relocate move) := rfl

@[simp] theorem relocate_initVal (init : InitVal) : init.node.relocate move = (init.relocate move).node := by
  cases init with
  | expr => rfl
  | list => rw [InitVal.relocate, InitVal.relocateAll_eq]; rfl

@[simp] theorem relocate_blockItem (item : BlockItem) : item.node.relocate move = (item.relocate move).node := by
  cases item <;> rfl

@[simp] theorem relocate_item (item : Item) : item.node.relocate move = (item.relocate move).node := by
  cases item <;> rfl

theorem children_relocate (node : Node) : (node.relocate move).children = node.children.map (·.relocate move) := by
  cases node with
  | unit program =>
    change (program.relocate move).items.map (·.node) = _
    simp [children, CompUnit.relocate]
  | decl declaration =>
    change (declaration.relocate move).defs.map Node.varDef = _
    simp [children, Decl.relocate]
  | varDef var => cases init : var.init <;> simp [children, VarDef.relocate, init]
  | initList elements =>
    change (elements.map (·.relocate move)).map (·.node) = _
    simp [children]
  | func function =>
    change (function.relocate move).params.map Node.param ++ [Node.stmt (function.relocate move).block] = _
    simp [children, FuncDef.relocate, FuncDef.block, Stmt.relocate]
  | param => simp [children, Param.relocate]
  | stmt statement =>
    cases statement with
    | branch _ _ elsePart => cases elsePart <;> simp [Stmt.relocate, children]
    | expr value => cases value <;> simp [Stmt.relocate, children]
    | giveBack value => cases value <;> simp [Stmt.relocate, children]
    | _ => simp [Stmt.relocate, Expr.relocate, children]
  | expr expression => cases expression <;> simp [Expr.relocate, children]

theorem sitesUnder_relocate (ancestors : List Node) (node : Node) :
    (node.relocate move).sitesUnder (ancestors.map (·.relocate move)) =
      (node.sitesUnder ancestors).map (·.relocate move) := by
  induction node using induction_children generalizing ancestors with
  | step node ih =>
    rw [sitesUnder_eq, sitesUnder_eq ancestors, children_relocate, map_cons, map_flatMap, flatMap_map]
    congr 1
    exact flatMap_congr fun child isChild => ih child isChild (node :: ancestors)

@[simp] theorem kind_relocate (node : Node) : (node.relocate move).kind = node.kind := by
  cases node with
  | stmt statement =>
    cases statement with
    | branch _ _ elsePart => cases elsePart <;> rfl
    | _ => rfl
  | expr expression => cases expression <;> rfl
  | _ => rfl

end Node

/-! ## Shapes -/

mutual

theorem Expr.shape_relocate (expr : Expr) : (expr.relocate move).shape = expr.shape := by
  cases expr with
  | intLit | floatLit => rfl
  | lval _ indices => simp only [relocate, shape, shapes_relocateAll indices, Reference.shape, Reference.relocate]
  | call _ arguments => simp only [relocate, shape, shapes_relocateAll arguments, Reference.shape, Reference.relocate]
  | unary _ operand => rw [relocate, shape, operand.shape_relocate, shape]
  | binary left _ right => rw [relocate, shape, left.shape_relocate, right.shape_relocate, shape]

theorem Expr.shapes_relocateAll (list : List Expr) : Expr.shapes (Expr.relocateAll move list) = Expr.shapes list := by
  cases list with
  | nil => rfl
  | cons first rest => rw [relocateAll, shapes, first.shape_relocate, shapes_relocateAll rest, shapes]

end

mutual

theorem InitVal.shape_relocate (init : InitVal) : (init.relocate move).shape = init.shape := by
  cases init with
  | expr value => rw [relocate, shape, value.shape_relocate, shape]
  | list elements => rw [relocate, shape, shapes_relocateAll elements, shape]

theorem InitVal.shapes_relocateAll (list : List InitVal) :
    InitVal.shapes (InitVal.relocateAll move list) = InitVal.shapes list := by
  cases list with
  | nil => rfl
  | cons first rest => rw [relocateAll, shapes, first.shape_relocate, shapes_relocateAll rest, shapes]

end

theorem VarDef.shape_relocate (var : VarDef) : (var.relocate move).shape = var.shape := by
  simp [relocate, shape, Expr.shapes_eq, Function.comp_def, Expr.shape_relocate, InitVal.shape_relocate]

theorem Decl.shape_relocate (decl : Decl) : (decl.relocate move).shape id = decl.shape id := by
  simp [relocate, shape, Function.comp_def, VarDef.shape_relocate]

theorem Param.shape_relocate (param : Param) : (param.relocate move).shape = param.shape := by
  simp [relocate, shape, Expr.shapes_eq, Function.comp_def, Expr.shape_relocate]

mutual

theorem Stmt.shape_relocate (stmt : Stmt) : (stmt.relocate move).shape id = stmt.shape id := by
  cases stmt with
  | block items => rw [Stmt.relocate, Stmt.shape, BlockItem.shapes_relocateAll items, Stmt.shape]
  | assign =>
    simp only [Stmt.relocate, Stmt.shape, Expr.shapes_relocateAll, Expr.shape_relocate, Reference.shape,
      Reference.relocate]
  | expr => simp [Stmt.relocate, Stmt.shape, Function.comp_def, Expr.shape_relocate]
  | branch condition thenPart elsePart =>
    cases elsePart with
    | none => rw [Stmt.relocate, Stmt.shape, condition.shape_relocate, thenPart.shape_relocate, Stmt.shape]
    | some elsePart =>
      rw [Stmt.relocate, Stmt.shape, condition.shape_relocate, thenPart.shape_relocate,
        elsePart.shape_relocate, Stmt.shape]
  | loop condition body => rw [Stmt.relocate, Stmt.shape, condition.shape_relocate, body.shape_relocate, Stmt.shape]
  | breakLoop | continueLoop => rfl
  | giveBack => simp [Stmt.relocate, Stmt.shape, Function.comp_def, Expr.shape_relocate]

theorem BlockItem.shapes_relocateAll (list : List BlockItem) :
    BlockItem.shapes id (BlockItem.relocateAll move list) = BlockItem.shapes id list := by
  cases list with
  | nil => rfl
  | cons first rest =>
    rw [BlockItem.relocateAll, BlockItem.shapes, first.shape_relocate, BlockItem.shapes_relocateAll rest,
      BlockItem.shapes]

theorem BlockItem.shape_relocate (item : BlockItem) : (item.relocate move).shape id = item.shape id := by
  cases item with
  | decl declaration => rw [BlockItem.relocate, BlockItem.shape, declaration.shape_relocate, BlockItem.shape]
  | stmt statement => rw [BlockItem.relocate, BlockItem.shape, statement.shape_relocate, BlockItem.shape]

end

theorem FuncDef.shape_relocate (func : FuncDef) : (func.relocate move).shape id = func.shape id := by
  simp [relocate, shape, Function.comp_def, Param.shape_relocate, BlockItem.shapes_eq, BlockItem.shape_relocate]

theorem Item.shape_relocate (item : Item) : (item.relocate move).shape id = item.shape id := by
  cases item with
  | decl declaration => rw [relocate, shape, declaration.shape_relocate, shape]
  | func function => rw [relocate, shape, function.shape_relocate, shape]

theorem CompUnit.shape_relocate (unit : CompUnit) : (unit.relocate move).shape id = unit.shape id := by
  simp [relocate, shape, Function.comp_def, Item.shape_relocate]

end SysYTools
