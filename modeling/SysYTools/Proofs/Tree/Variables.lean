import SysYTools.Proofs.Tree.Shape

/-!
The variables and parameters of a program. A walk over the program meets just these, and those of a shape are
the shapes of those of the program.
-/

namespace SysYTools

open List

/-! ## Shapes -/

mutual

theorem Stmt.defs_shape (change : VarDef → VarDef) (stmt : Stmt) :
    (stmt.shape change).defs = stmt.defs.map fun var => (change var).shape :=
  match stmt with
  | .block items _ => BlockItem.allDefs_shapes change items
  | .branch _ thenPart none _ => Stmt.defs_shape change thenPart
  | .branch _ thenPart (some elsePart) _ => by
    rw [Stmt.shape, Stmt.defs, Stmt.defs, Stmt.defs_shape change thenPart, Stmt.defs_shape change elsePart,
      map_append]
  | .loop _ body _ => Stmt.defs_shape change body
  | .assign .. | .expr .. | .breakLoop _ | .continueLoop _ | .giveBack .. => rfl

theorem BlockItem.allDefs_shapes (change : VarDef → VarDef) (items : List BlockItem) :
    BlockItem.allDefs (BlockItem.shapes change items) =
      (BlockItem.allDefs items).map fun var => (change var).shape :=
  match items with
  | [] => rfl
  | first :: rest => by
    rw [BlockItem.shapes, BlockItem.allDefs, BlockItem.allDefs, BlockItem.defs_shape change first,
      BlockItem.allDefs_shapes change rest, map_append]

theorem BlockItem.defs_shape (change : VarDef → VarDef) (item : BlockItem) :
    (item.shape change).defs = item.defs.map fun var => (change var).shape :=
  match item with
  | .decl _ => rfl
  | .stmt statement => Stmt.defs_shape change statement

end

theorem Item.defs_shape (change : VarDef → VarDef) (item : Item) :
    (item.shape change).defs = item.defs.map fun var => (change var).shape :=
  match item with
  | .decl _ => rfl
  | .func function => BlockItem.allDefs_shapes change function.body

/-- The parameters of the functions of a program. -/
def Item.params : Item → List Param
  | .decl _ => []
  | .func function => function.params

def CompUnit.params (unit : CompUnit) : List Param :=
  unit.items.flatMap Item.params

theorem Item.params_shape (change : VarDef → VarDef) (item : Item) :
    (item.shape change).params = item.params.map Param.shape := by
  cases item <;> rfl

section Units

variable {change : VarDef → VarDef} {unit unit' : CompUnit} (same : unit'.shape id = unit.shape change)
include same

theorem CompUnit.exists_def_of_shape {var' : VarDef} (member : var' ∈ unit'.defs) :
    ∃ var ∈ unit.defs, var'.shape = (change var).shape := by
  have shapes : unit'.defs.map VarDef.shape = unit.defs.map fun var => (change var).shape := by
    have flat := congrArg (List.flatMap Item.defs) same
    simp only [CompUnit.shape, flatMap_map, Item.defs_shape, id_eq, ← map_flatMap] at flat
    exact flat
  have shaped : var'.shape ∈ unit.defs.map fun var => (change var).shape := shapes ▸ mem_map_of_mem member
  obtain ⟨var, isVar, isShape⟩ := mem_map.mp shaped
  exact ⟨var, isVar, isShape.symm⟩

theorem CompUnit.exists_param_of_shape {param' : Param} (member : param' ∈ unit'.params) :
    ∃ param ∈ unit.params, param'.shape = param.shape := by
  have shapes : unit'.params.map Param.shape = unit.params.map Param.shape := by
    have flat := congrArg (List.flatMap Item.params) same
    simp only [CompUnit.shape, flatMap_map, Item.params_shape, ← map_flatMap] at flat
    exact flat
  have shaped : param'.shape ∈ unit.params.map Param.shape := shapes ▸ mem_map_of_mem member
  obtain ⟨param, isParam, isShape⟩ := mem_map.mp shaped
  exact ⟨param, isParam, isShape.symm⟩

end Units

/-! ## Walks -/

namespace Node

theorem flatMap_walk {α : Type} {own all : Node → List α}
    (each : ∀ node, own node ++ node.children.flatMap all = all node) (node : Node) :
    node.walk.flatMap own = all node := by
  induction node using induction_children with
  | step node ih =>
    rw [walk_eq, flatMap_cons, flatMap_assoc, flatMap_congr ih, each]

/-- The variables that are defined in a node. -/
def defs : Node → List VarDef
  | .unit program => program.defs
  | .decl declaration => declaration.defs
  | .varDef var => [var]
  | .func function => BlockItem.allDefs function.body
  | .stmt statement => statement.defs
  | .initList _ _ | .param _ | .expr _ => []

/-- The parameters of the functions in a node. -/
def params : Node → List Param
  | .unit program => program.params
  | .func function => function.params
  | .param parameter => [parameter]
  | .decl _ | .varDef _ | .stmt _ | .initList _ _ | .expr _ => []

@[simp] theorem defs_unit (unit : CompUnit) : (Node.unit unit).defs = unit.defs := rfl

@[simp] theorem defs_decl (decl : Decl) : (Node.decl decl).defs = decl.defs := rfl

@[simp] theorem defs_func (func : FuncDef) : (Node.func func).defs = BlockItem.allDefs func.body := rfl

@[simp] theorem defs_varDef (var : VarDef) : (Node.varDef var).defs = [var] := rfl

@[simp] theorem defs_param (param : Param) : (Node.param param).defs = [] := rfl

@[simp] theorem defs_stmt (stmt : Stmt) : (Node.stmt stmt).defs = stmt.defs := rfl

@[simp] theorem defs_expr (expr : Expr) : (Node.expr expr).defs = [] := rfl

@[simp] theorem defs_initList (elements : List InitVal) (span : Span) : (Node.initList elements span).defs = [] := rfl

@[simp] theorem defs_init (init : InitVal) : init.node.defs = [] := by
  cases init <;> rfl

@[simp] theorem defs_blockItem (item : BlockItem) : item.node.defs = item.defs := by
  cases item <;> rfl

@[simp] theorem defs_item (item : Item) : item.node.defs = item.defs := by
  cases item <;> rfl

@[simp] theorem params_unit (unit : CompUnit) : (Node.unit unit).params = unit.params := rfl

@[simp] theorem params_decl (decl : Decl) : (Node.decl decl).params = [] := rfl

@[simp] theorem params_func (func : FuncDef) : (Node.func func).params = func.params := rfl

@[simp] theorem params_varDef (var : VarDef) : (Node.varDef var).params = [] := rfl

@[simp] theorem params_param (param : Param) : (Node.param param).params = [param] := rfl

@[simp] theorem params_stmt (stmt : Stmt) : (Node.stmt stmt).params = [] := rfl

@[simp] theorem params_expr (expr : Expr) : (Node.expr expr).params = [] := rfl

@[simp] theorem params_initList (elements : List InitVal) (span : Span) : (Node.initList elements span).params = [] :=
  rfl

@[simp] theorem params_init (init : InitVal) : init.node.params = [] := by
  cases init <;> rfl

@[simp] theorem params_blockItem (item : BlockItem) : item.node.params = [] := by
  cases item <;> rfl

@[simp] theorem params_item (item : Item) : item.node.params = item.params := by
  cases item <;> rfl

/-- A variable, where the node is its definition. -/
def var? : Node → Option VarDef
  | .varDef var => some var
  | _ => none

def param? : Node → Option Param
  | .param parameter => some parameter
  | _ => none

theorem allDefs_eq (items : List BlockItem) : BlockItem.allDefs items = items.flatMap BlockItem.defs := by
  induction items with
  | nil => rfl
  | cons first rest ih => rw [BlockItem.allDefs, ih, flatMap_cons]

theorem defs_eq (node : Node) : node.var?.toList ++ node.children.flatMap defs = node.defs := by
  cases node with
  | unit program => simp [var?, children, flatMap_map, CompUnit.defs]
  | decl declaration => simp [var?, children, flatMap_map]
  | varDef var => simp [var?, children, flatMap_map]
  | initList elements span => simp [var?, children, flatMap_map]
  | func function => simp [var?, children, flatMap_map, FuncDef.block, Stmt.defs]
  | param parameter => simp [var?, children, flatMap_map]
  | expr expression => cases expression <;> simp [var?, children, flatMap_map]
  | stmt statement =>
    cases statement with
    | branch condition thenPart elsePart span => cases elsePart <;> simp [var?, children, Stmt.defs]
    | block items span => simp [var?, children, Stmt.defs, flatMap_map, allDefs_eq]
    | _ => simp [var?, children, Stmt.defs]

theorem params_eq (node : Node) : node.param?.toList ++ node.children.flatMap params = node.params := by
  cases node with
  | unit program => simp [param?, children, flatMap_map, CompUnit.params]
  | decl declaration => simp [param?, children, flatMap_map]
  | varDef var => simp [param?, children, flatMap_map]
  | initList elements span => simp [param?, children, flatMap_map]
  | func function => simp [param?, children, flatMap_map]
  | param parameter => simp [param?, children, flatMap_map]
  | stmt statement => cases statement <;> simp [param?, children, flatMap_map]
  | expr expression => cases expression <;> simp [param?, children, flatMap_map]

theorem mem_walk_varDef {var : VarDef} {node : Node} : Node.varDef var ∈ node.walk ↔ var ∈ node.defs := by
  rw [← flatMap_walk defs_eq node, mem_flatMap]
  constructor
  · exact fun member => ⟨_, member, by simp [var?]⟩
  · rintro ⟨part, member, isVar⟩
    cases part <;> simp [var?] at isVar
    exact isVar ▸ member

theorem mem_walk_param {param : Param} {node : Node} : Node.param param ∈ node.walk ↔ param ∈ node.params := by
  rw [← flatMap_walk params_eq node, mem_flatMap]
  constructor
  · exact fun member => ⟨_, member, by simp [param?]⟩
  · rintro ⟨part, member, isParam⟩
    cases part <;> simp [param?] at isParam
    exact isParam ▸ member

end Node

end SysYTools
