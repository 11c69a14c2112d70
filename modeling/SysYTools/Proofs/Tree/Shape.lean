import SysYTools.Proofs.Token.Pieces
import SysYTools.Proofs.Tree.Grammar
import SysYTools.Proofs.Tree.Walk

/-!
The shape of a tree is the tree without its places. Two lists of tokens with the same words have
derivations of the same shapes, so what a text means does not hang on where its words stand.

A shape may also be taken with the definitions of variables changed. This is how a program is compared
with one in which some definitions were rewritten and all else was kept.
-/

namespace SysYTools

open List

/-! ## Shapes -/

/-- The place that stands for all places. -/
def Span.nowhere : Span := ⟨"", 0, 0, 0, 0⟩

def Reference.shape (reference : Reference) : Reference :=
  { reference with span := .nowhere }

mutual

def Expr.shape : Expr → Expr
  | .intLit value _ => .intLit value .nowhere
  | .floatLit value _ => .floatLit value .nowhere
  | .lval reference indices _ => .lval reference.shape (Expr.shapes indices) .nowhere
  | .call reference arguments _ => .call reference.shape (Expr.shapes arguments) .nowhere
  | .unary op operand _ => .unary op operand.shape .nowhere
  | .binary left op right _ => .binary left.shape op right.shape .nowhere

def Expr.shapes : List Expr → List Expr
  | [] => []
  | first :: rest => first.shape :: Expr.shapes rest

end

mutual

def InitVal.shape : InitVal → InitVal
  | .expr value => .expr value.shape
  | .list elements _ => .list (InitVal.shapes elements) .nowhere

def InitVal.shapes : List InitVal → List InitVal
  | [] => []
  | first :: rest => first.shape :: InitVal.shapes rest

end

def VarDef.shape (var : VarDef) : VarDef :=
  { name := var.name, dims := Expr.shapes var.dims, init := var.init.map InitVal.shape
    span := .nowhere, nameSpan := .nowhere }

def Param.shape (param : Param) : Param :=
  { param with dims := Expr.shapes param.dims, span := .nowhere, nameSpan := .nowhere }

section Changed

variable (change : VarDef → VarDef)

def Decl.shape (decl : Decl) : Decl :=
  { decl with defs := decl.defs.map fun var => (change var).shape, span := .nowhere }

mutual

def Stmt.shape : Stmt → Stmt
  | .block items _ => .block (BlockItem.shapes items) .nowhere
  | .assign target indices _ value _ => .assign target.shape (Expr.shapes indices) .nowhere value.shape .nowhere
  | .expr value _ => .expr (value.map Expr.shape) .nowhere
  | .branch condition thenPart none _ => .branch condition.shape thenPart.shape none .nowhere
  | .branch condition thenPart (some elsePart) _ =>
    .branch condition.shape thenPart.shape (some elsePart.shape) .nowhere
  | .loop condition body _ => .loop condition.shape body.shape .nowhere
  | .breakLoop _ => .breakLoop .nowhere
  | .continueLoop _ => .continueLoop .nowhere
  | .giveBack value _ => .giveBack (value.map Expr.shape) .nowhere

def BlockItem.shapes : List BlockItem → List BlockItem
  | [] => []
  | first :: rest => first.shape :: BlockItem.shapes rest

def BlockItem.shape : BlockItem → BlockItem
  | .decl declaration => .decl (declaration.shape change)
  | .stmt statement => .stmt statement.shape

end

def FuncDef.shape (func : FuncDef) : FuncDef :=
  { returnType := func.returnType, name := func.name, params := func.params.map Param.shape
    body := BlockItem.shapes change func.body, bodySpan := .nowhere, span := .nowhere
    nameSpan := .nowhere, typeSpan := .nowhere }

def Item.shape : Item → Item
  | .decl declaration => .decl (declaration.shape change)
  | .func function => .func (function.shape change)

/-- The items of a program without their places, with the definitions of variables changed. -/
def CompUnit.shape (unit : CompUnit) : List Item := unit.items.map (·.shape change)

end Changed

theorem Expr.shapes_eq (list : List Expr) : Expr.shapes list = list.map Expr.shape := by
  induction list with
  | nil => rfl
  | cons _ _ ih => rw [Expr.shapes, ih, map_cons]

theorem InitVal.shapes_eq (list : List InitVal) : InitVal.shapes list = list.map InitVal.shape := by
  induction list with
  | nil => rfl
  | cons _ _ ih => rw [InitVal.shapes, ih, map_cons]

theorem BlockItem.shapes_eq (change : VarDef → VarDef) (list : List BlockItem) :
    BlockItem.shapes change list = list.map (·.shape change) := by
  induction list with
  | nil => rfl
  | cons _ _ ih => rw [BlockItem.shapes, ih, map_cons]

/-! ## The definitions of a program -/

mutual

def Stmt.defs : Stmt → List VarDef
  | .block items _ => BlockItem.allDefs items
  | .branch _ thenPart none _ => thenPart.defs
  | .branch _ thenPart (some elsePart) _ => thenPart.defs ++ elsePart.defs
  | .loop _ body _ => body.defs
  | _ => []

def BlockItem.allDefs : List BlockItem → List VarDef
  | [] => []
  | first :: rest => first.defs ++ BlockItem.allDefs rest

def BlockItem.defs : BlockItem → List VarDef
  | .decl declaration => declaration.defs
  | .stmt statement => statement.defs

end

def Item.defs : Item → List VarDef
  | .decl declaration => declaration.defs
  | .func function => BlockItem.allDefs function.body

/-- The variables that a program defines, the locals of its functions among them. -/
def CompUnit.defs (unit : CompUnit) : List VarDef := unit.items.flatMap Item.defs

/-! ## The nearest `if` of a shape -/

@[simp] theorem Stmt.endsOpen_shape (change : VarDef → VarDef) (stmt : Stmt) :
    (stmt.shape change).endsOpen = stmt.endsOpen := by
  fun_induction Stmt.endsOpen stmt with
  | case1 => rfl
  | case2 _ _ _ _ ih => rw [Stmt.shape, Stmt.endsOpen, ih]
  | case3 _ _ _ ih => rw [Stmt.shape, Stmt.endsOpen, ih]
  | case4 stmt open1 open2 loops =>
    cases stmt with
    | branch _ _ elsePart =>
      cases elsePart with
      | none => exact absurd rfl (open1 _ _ _)
      | some => exact absurd rfl (open2 _ _ _ _)
    | loop => exact absurd rfl (loops _ _ _)
    | _ => rfl

mutual

theorem Stmt.nearestElse_shape (change : VarDef → VarDef) (stmt : Stmt) :
    (stmt.shape change).NearestElse ↔ stmt.NearestElse :=
  match stmt with
  | .block items _ => BlockItem.allNearestElse_shapes change items
  | .branch _ thenPart none _ => thenPart.nearestElse_shape change
  | .branch _ thenPart (some elsePart) _ => by
    simp only [Stmt.shape, Stmt.NearestElse, Stmt.endsOpen_shape, thenPart.nearestElse_shape change,
      elsePart.nearestElse_shape change]
  | .loop _ body _ => body.nearestElse_shape change
  | .assign .. | .expr .. | .breakLoop _ | .continueLoop _ | .giveBack .. => Iff.rfl

theorem BlockItem.allNearestElse_shapes (change : VarDef → VarDef) (items : List BlockItem) :
    BlockItem.AllNearestElse (BlockItem.shapes change items) ↔ BlockItem.AllNearestElse items :=
  match items with
  | [] => Iff.rfl
  | first :: rest => and_congr (BlockItem.nearestElse_shape change first) (BlockItem.allNearestElse_shapes change rest)

theorem BlockItem.nearestElse_shape (change : VarDef → VarDef) (item : BlockItem) :
    (item.shape change).NearestElse ↔ item.NearestElse :=
  match item with
  | .decl _ => Iff.rfl
  | .stmt statement => statement.nearestElse_shape change

end

theorem Item.nearestElse_shape (change : VarDef → VarDef) (item : Item) :
    (item.shape change).NearestElse ↔ item.NearestElse := by
  cases item with
  | decl => exact Iff.rfl
  | func function => exact BlockItem.allNearestElse_shapes change function.body

theorem Item.nearestElse_of_shapes {change : VarDef → VarDef} {items items' : List Item}
    (same : items'.map (·.shape id) = items.map (·.shape change))
    (nearest : ∀ item ∈ items, item.NearestElse) : ∀ item ∈ items', item.NearestElse := by
  intro item' member
  have shaped : item'.shape id ∈ items.map (·.shape change) := same ▸ mem_map_of_mem member
  obtain ⟨item, isItem, shape⟩ := mem_map.mp shaped
  rw [← Item.nearestElse_shape id, ← shape, Item.nearestElse_shape]
  exact nearest item isItem

end SysYTools
