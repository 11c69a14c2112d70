import SysYTools.Scope.Declaration
import SysYTools.Scope.Table

/-!
Linking: which declaration each use of a name means. Functions are known everywhere in a program, and so
are the functions of the library. A variable is known from the end of its own definition to the end of
the block around it. A call means a function of the global scope and nothing else, and a variable never
means a function, even if a function hides the variable.
-/

namespace SysYTools

structure Symbol where
  declaration : Declaration
  dims : List (Option Int)
  deriving Repr

structure Binding where
  reference : Reference
  target : Option Declaration
  deriving Repr

abbrev SymbolTable := ScopeTable Symbol

namespace SymbolTable

def variableTarget (table : SymbolTable) (name : String) : Option Declaration :=
  match ScopeTable.lookup table name with
  | some entry => if entry.value.declaration.isFunction then none else some entry.value.declaration
  | none => none

def callTarget (table : SymbolTable) (name : String) : Option Declaration :=
  match table.global.find? name with
  | some entry => if entry.value.declaration.isFunction then some entry.value.declaration else none
  | none => none

end SymbolTable

/-! ## Uses of names in expressions -/

mutual

def Expr.bindings (table : SymbolTable) : Expr → List Binding
  | .intLit _ _ | .floatLit _ _ => []
  | .lval reference indices _ =>
    { reference, target := table.variableTarget reference.name } :: Expr.bindingsOfAll table indices
  | .call reference arguments _ =>
    { reference, target := table.callTarget reference.name } :: Expr.bindingsOfAll table arguments
  | .unary _ operand _ => operand.bindings table
  | .binary left _ right _ => left.bindings table ++ right.bindings table

def Expr.bindingsOfAll (table : SymbolTable) : List Expr → List Binding
  | [] => []
  | first :: rest => first.bindings table ++ Expr.bindingsOfAll table rest

end

mutual

def InitVal.bindings (table : SymbolTable) : InitVal → List Binding
  | .expr value => value.bindings table
  | .list elements _ => InitVal.bindingsOfAll table elements

def InitVal.bindingsOfAll (table : SymbolTable) : List InitVal → List Binding
  | [] => []
  | first :: rest => first.bindings table ++ InitVal.bindingsOfAll table rest

end

/-! ## Definitions and uses in order -/

/-- A definition that had no effect, since its scope has the name already. -/
structure Redefinition where
  name : String
  /-- Where the definition stands that is kept. -/
  first : Span
  deriving Repr

/-- The state of linking: the scopes, and the uses and lost definitions so far. -/
structure Linkage where
  table : SymbolTable
  bindings : List Binding
  redefinitions : List Redefinition
  deriving Repr

/-- Why linking stopped, and the definitions that had no effect until then. -/
structure LinkStop where
  fault : Fault
  redefinitions : List Redefinition
  deriving Repr

namespace Linkage

/-- The value of an operation during linking. A fault stops the linking. -/
def orStop {α : Type} (linkage : Linkage) (result : Except Fault α) : Except LinkStop α :=
  result.mapError fun fault => { fault, redefinitions := linkage.redefinitions }

def empty : Linkage :=
  { table := .empty, bindings := [], redefinitions := [] }

def use (linkage : Linkage) (bindings : List Binding) : Linkage :=
  { linkage with bindings := linkage.bindings ++ bindings }

/-- Defines a name in the current scope. The first definition of a scope stays. -/
def define (linkage : Linkage) (declaration : Declaration) : Except LinkStop Linkage := do
  let dims ← linkage.orStop declaration.dims
  match linkage.table.current.find? declaration.name with
  | some entry =>
    let lost := { name := declaration.name, first := entry.value.declaration.nameSpan }
    return { linkage with redefinitions := linkage.redefinitions ++ [lost] }
  | none => return { linkage with table := linkage.table.define declaration.name { declaration, dims } }

def enter (linkage : Linkage) (name : String) : Linkage :=
  { linkage with table := linkage.table.push name }

def leave (linkage : Linkage) : Except LinkStop Linkage := do
  return { linkage with table := ← linkage.orStop linkage.table.pop }

/-- A definition is known after its own dimensions and initializer. -/
def varDef (decl : Decl) (linkage : Linkage) (var : VarDef) : Except LinkStop Linkage :=
  let linkage := linkage.use (Expr.bindingsOfAll linkage.table var.dims)
  let linkage :=
    match var.init with
    | some init => linkage.use (init.bindings linkage.table)
    | none => linkage
  linkage.define (.variable decl var)

def decl (linkage : Linkage) (decl : Decl) : Except LinkStop Linkage := decl.defs.foldlM (varDef decl) linkage

mutual

def stmt (linkage : Linkage) : Stmt → Except LinkStop Linkage
  | .block items _ => do (← blockItems (linkage.enter "block") items).leave
  | .assign target indices span value _ =>
    return linkage.use ((Expr.lval target indices span).bindings linkage.table ++ value.bindings linkage.table)
  | .expr (some value) _ | .giveBack (some value) _ => return linkage.use (value.bindings linkage.table)
  | .expr none _ | .giveBack none _ | .breakLoop _ | .continueLoop _ => return linkage
  | .branch condition thenPart elsePart _ => do
    let linkage ← stmt (linkage.use (condition.bindings linkage.table)) thenPart
    match elsePart with
    | some elsePart => stmt linkage elsePart
    | none => return linkage
  | .loop condition body _ => stmt (linkage.use (condition.bindings linkage.table)) body

def blockItems (linkage : Linkage) : List BlockItem → Except LinkStop Linkage
  | [] => return linkage
  | first :: rest => do blockItems (← blockItem linkage first) rest

def blockItem (linkage : Linkage) : BlockItem → Except LinkStop Linkage
  | .decl declaration => linkage.decl declaration
  | .stmt statement => stmt linkage statement

end

def param (linkage : Linkage) (param : Param) : Except LinkStop Linkage :=
  (linkage.use (Expr.bindingsOfAll linkage.table param.dims)).define (.parameter param)

/-- The parameters of a function and its body share one scope. -/
def function (linkage : Linkage) (func : FuncDef) : Except LinkStop Linkage := do
  let linkage ← func.params.foldlM param (linkage.enter func.name)
  (← blockItems linkage func.body).leave

def item (linkage : Linkage) : Item → Except LinkStop Linkage
  | .decl declaration => linkage.decl declaration
  | .func func => linkage.function func

end Linkage

/-- Links a program: first the names of its functions, then those of the library, then the rest. -/
def CompUnit.link (unit : CompUnit) : Except LinkStop Linkage := do
  let functions := (unit.functions ++ Library.functions).map .function
  let linkage ← functions.foldlM Linkage.define Linkage.empty
  unit.items.foldlM Linkage.item linkage

/-- The definitions that have no effect, up to the fault that stops the linking if there is one. -/
def CompUnit.redefinitions (unit : CompUnit) : List Redefinition :=
  match unit.link with
  | .ok linkage => linkage.redefinitions
  | .error stop => stop.redefinitions

def Linkage.target? (linkage : Linkage) (reference : Reference) : Option Declaration :=
  (linkage.bindings.find? (·.reference == reference)).bind (·.target)

/-- Whether some use of a name means a variable. The place of its name tells a variable from all
others. -/
def Linkage.uses (linkage : Linkage) (var : VarDef) : Bool :=
  linkage.bindings.any fun binding =>
    match binding.target with
    | some (.variable _ target) => target.nameSpan == var.nameSpan
    | _ => false

end SysYTools
