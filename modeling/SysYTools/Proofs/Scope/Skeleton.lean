import SysYTools.Proofs.Scope.Relocation

/-!
Linking a relocated program. Which declaration a name means is found by names alone, so linking gives the relocated
tables and uses of names, and it stops where it stopped before. Only the list of definitions without effect is left
out of the comparison: nothing but messages for people is made of it.

The skeleton of a program is relocated so that its words are pinned and all else goes nowhere. It is linked with the
skeletons of the functions of the library.
-/

namespace SysYTools

open List

/-! ## Tables with other meanings -/

section Tables

variable {σ τ : Type} (change : σ → τ)

def Entry.map (entry : Entry σ) : Entry τ :=
  { name := entry.name, scope := entry.scope, value := change entry.value }

def Scope.map (scope : Scope σ) : Scope τ :=
  { number := scope.number, name := scope.name, parent := scope.parent
    entries := scope.entries.map (·.map change) }

def ScopeTable.map (table : ScopeTable σ) : ScopeTable τ :=
  { inner := table.inner.map (·.map change), global := table.global.map change
    closed := table.closed.map (·.map change) }

variable {change}

theorem Scope.find?_map (scope : Scope σ) (name : String) :
    (scope.map change).find? name = (scope.find? name).map (·.map change) := by
  simp only [find?, Scope.map, List.find?_map]
  rfl

theorem Scope.add_map (scope : Scope σ) (name : String) (value : σ) :
    (scope.map change).add name (change value) = (scope.add name value).map change := by
  simp only [add, find?_map]
  cases scope.find? name with
  | some => rfl
  | none => simp [Scope.map, Entry.map]

namespace ScopeTable

section

variable (table : ScopeTable σ)

theorem current_map : (table.map change).current = table.current.map change := by
  obtain ⟨inner, _, _⟩ := table
  cases inner <;> rfl

theorem push_map (name : String) : (table.map change).push name = (table.push name).map change := by
  rw [push, current_map]
  simp only [push, count, ScopeTable.map, Scope.map, length_map, map_cons, map_nil]

theorem pop_map : (table.map change).pop = table.pop.map (·.map change) := by
  obtain ⟨inner, _, _⟩ := table
  cases inner <;> rfl

theorem define_map (name : String) (value : σ) :
    (table.map change).define name (change value) = (table.define name value).map change := by
  obtain ⟨inner, _, _⟩ := table
  cases inner with
  | nil => simp only [define, ScopeTable.map, map_nil, Scope.add_map]
  | cons => simp only [define, ScopeTable.map, map_cons, Scope.add_map]

theorem lookup_map (name : String) : (table.map change).lookup name = (table.lookup name).map (·.map change) := by
  have found : ∀ scopes : List (Scope σ), (scopes.map (·.map change)).findSome? (·.find? name) =
      (scopes.findSome? (·.find? name)).map (·.map change) := by
    intro scopes
    induction scopes with
    | nil => rfl
    | cons scope _ ih =>
      rw [map_cons, findSome?_cons, findSome?_cons, Scope.find?_map, ih]
      cases scope.find? name <;> rfl
  rw [lookup, lookup, ← found, map_append]
  rfl

end

end ScopeTable

end Tables

/-! ## Declarations and uses -/

def Symbol.relocate (move : Relocation) (symbol : Symbol) : Symbol :=
  { symbol with declaration := symbol.declaration.relocate move }

def Binding.relocate (move : Relocation) (binding : Binding) : Binding :=
  { reference := binding.reference.relocate move, target := binding.target.map (·.relocate move) }

variable {move : Relocation}

namespace Declaration

@[simp] theorem name_relocate (declaration : Declaration) : (declaration.relocate move).name = declaration.name := by
  cases declaration <;> rfl

@[simp] theorem isFunction_relocate (declaration : Declaration) :
    (declaration.relocate move).isFunction = declaration.isFunction := by
  cases declaration <;> rfl

theorem literalDims_relocate (dims : List Expr) : literalDims (dims.map (·.relocate move)) = literalDims dims := by
  rw [literalDims, literalDims, mapM_map]
  congr 1
  funext dim
  cases dim <;> rfl

@[simp] theorem dims_relocate (declaration : Declaration) : (declaration.relocate move).dims = declaration.dims :=
  match declaration with
  | .variable _ var => literalDims_relocate var.dims
  | .parameter param => by
    change (literalDims (param.dims.map (·.relocate move)) >>= _) = _
    rw [literalDims_relocate]
    rfl
  | .function _ => rfl

end Declaration

namespace SymbolTable

theorem variableTarget_relocate (table : SymbolTable) (name : String) :
    variableTarget (table.map (Symbol.relocate move)) name = (table.variableTarget name).map (·.relocate move) := by
  simp only [variableTarget, ScopeTable.lookup_map]
  cases table.lookup name with
  | none => rfl
  | some =>
    simp only [Option.map_some, Entry.map, Symbol.relocate, Declaration.isFunction_relocate]
    split <;> rfl

theorem callTarget_relocate (table : SymbolTable) (name : String) :
    callTarget (table.map (Symbol.relocate move)) name = (table.callTarget name).map (·.relocate move) := by
  simp only [callTarget, ScopeTable.map, Scope.find?_map]
  cases table.global.find? name with
  | none => rfl
  | some =>
    simp only [Option.map_some, Entry.map, Symbol.relocate, Declaration.isFunction_relocate]
    split <;> rfl

end SymbolTable

mutual

theorem Expr.bindings_relocate (table : SymbolTable) (expr : Expr) :
    (expr.relocate move).bindings (table.map (Symbol.relocate move)) =
      (expr.bindings table).map (·.relocate move) := by
  cases expr with
  | intLit | floatLit => rfl
  | lval _ indices =>
    rw [Expr.relocate, Expr.bindings, Expr.bindings, Expr.bindingsOfAll_relocateAll table indices, map_cons,
      Binding.relocate, ← SymbolTable.variableTarget_relocate]
    rfl
  | call _ arguments =>
    rw [Expr.relocate, Expr.bindings, Expr.bindings, Expr.bindingsOfAll_relocateAll table arguments, map_cons,
      Binding.relocate, ← SymbolTable.callTarget_relocate]
    rfl
  | unary _ operand => rw [Expr.relocate, Expr.bindings, Expr.bindings, operand.bindings_relocate table]
  | binary left _ right =>
    rw [Expr.relocate, Expr.bindings, Expr.bindings, left.bindings_relocate table,
      right.bindings_relocate table, map_append]

theorem Expr.bindingsOfAll_relocateAll (table : SymbolTable) (exprs : List Expr) :
    Expr.bindingsOfAll (table.map (Symbol.relocate move)) (Expr.relocateAll move exprs) =
      (Expr.bindingsOfAll table exprs).map (·.relocate move) := by
  cases exprs with
  | nil => rfl
  | cons first rest =>
    rw [Expr.relocateAll, Expr.bindingsOfAll, Expr.bindingsOfAll, first.bindings_relocate table,
      Expr.bindingsOfAll_relocateAll table rest, map_append]

end

mutual

theorem InitVal.bindings_relocate (table : SymbolTable) (init : InitVal) :
    (init.relocate move).bindings (table.map (Symbol.relocate move)) =
      (init.bindings table).map (·.relocate move) := by
  cases init with
  | expr value => exact value.bindings_relocate table
  | list elements => exact InitVal.bindingsOfAll_relocateAll table elements

theorem InitVal.bindingsOfAll_relocateAll (table : SymbolTable) (inits : List InitVal) :
    InitVal.bindingsOfAll (table.map (Symbol.relocate move)) (InitVal.relocateAll move inits) =
      (InitVal.bindingsOfAll table inits).map (·.relocate move) := by
  cases inits with
  | nil => rfl
  | cons first rest =>
    rw [InitVal.relocateAll, InitVal.bindingsOfAll, InitVal.bindingsOfAll, first.bindings_relocate table,
      InitVal.bindingsOfAll_relocateAll table rest, map_append]

end

/-! ## Runs of the linking -/

/-- The scopes and the uses of one state are the relocated ones of the other. -/
structure Linkage.Mirrors (move : Relocation) (linkage mirror : Linkage) : Prop where
  table : mirror.table = linkage.table.map (Symbol.relocate move)
  bindings : mirror.bindings = linkage.bindings.map (·.relocate move)

/-- Two results, of which one is the relocated other, or the same fault. -/
inductive LinksAlike (move : Relocation) : Except LinkStop Linkage → Except LinkStop Linkage → Prop where
  | ok {linkage mirror : Linkage} (mirrors : linkage.Mirrors move mirror) :
      LinksAlike move (.ok linkage) (.ok mirror)
  | error {stop stop' : LinkStop} (faults : stop.fault = stop'.fault) :
      LinksAlike move (.error stop) (.error stop')

theorem LinksAlike.bind {result result' : Except LinkStop Linkage}
    {next next' : Linkage → Except LinkStop Linkage} (first : LinksAlike move result result')
    (second : ∀ linkage mirror, linkage.Mirrors move mirror → LinksAlike move (next linkage) (next' mirror)) :
    LinksAlike move (result >>= next) (result' >>= next') := by
  cases first with
  | ok mirrors => exact second _ _ mirrors
  | error faults => exact .error faults

theorem LinksAlike.foldlM {α : Type} {change : α → α} {step step' : Linkage → α → Except LinkStop Linkage}
    (each : ∀ linkage mirror part, linkage.Mirrors move mirror →
      LinksAlike move (step linkage part) (step' mirror (change part)))
    (parts : List α) {linkage mirror : Linkage} (mirrors : linkage.Mirrors move mirror) :
    LinksAlike move (parts.foldlM step linkage) ((parts.map change).foldlM step' mirror) := by
  induction parts generalizing linkage mirror with
  | nil => exact .ok mirrors
  | cons first _ ih =>
    rw [map_cons, foldlM_cons, foldlM_cons]
    exact (each linkage mirror first mirrors).bind fun _ _ mirrors => ih mirrors

namespace Linkage

variable {linkage mirror : Linkage}

section

variable (mirrors : linkage.Mirrors move mirror)
include mirrors

theorem Mirrors.use (bindings : List Binding) :
    (linkage.use bindings).Mirrors move (mirror.use (bindings.map (·.relocate move))) where
  table := mirrors.table
  bindings := by simp [Linkage.use, mirrors.bindings]

theorem Mirrors.enter (name : String) :
    (linkage.enter name).Mirrors move (mirror.enter name) where
  table := by simp only [Linkage.enter, mirrors.table, ScopeTable.push_map]
  bindings := mirrors.bindings

theorem leave_alike : LinksAlike move linkage.leave mirror.leave := by
  simp only [Linkage.leave, orStop, mirrors.table, ScopeTable.pop_map]
  cases linkage.table.pop with
  | error => exact .error rfl
  | ok => exact .ok ⟨rfl, mirrors.bindings⟩

theorem define_alike (declaration : Declaration) :
    LinksAlike move (linkage.define declaration) (mirror.define (declaration.relocate move)) := by
  simp only [define, Declaration.dims_relocate, Declaration.name_relocate, mirrors.table,
    ScopeTable.current_map, Scope.find?_map]
  cases declaration.dims with
  | error => exact .error rfl
  | ok dims =>
    cases linkage.table.current.find? declaration.name with
    | some => exact .ok ⟨rfl, mirrors.bindings⟩
    | none =>
      have defined := @ScopeTable.define_map _ _ (Symbol.relocate move) linkage.table declaration.name
        { declaration, dims }
      exact .ok ⟨defined, mirrors.bindings⟩

end

theorem varDef_alike (decl : Decl) (mirrors : linkage.Mirrors move mirror) (var : VarDef) :
    LinksAlike move (linkage.varDef decl var) (mirror.varDef (decl.relocate move) (var.relocate move)) := by
  have dims := mirrors.use (Expr.bindingsOfAll linkage.table var.dims)
  rw [← Expr.bindingsOfAll_relocateAll, ← mirrors.table, Expr.relocateAll_eq] at dims
  obtain ⟨_, _, init, _, _⟩ := var
  cases init with
  | none => exact define_alike dims _
  | some value =>
    have used := dims.use (value.bindings linkage.table)
    rw [← InitVal.bindings_relocate, ← mirrors.table] at used
    exact define_alike used _

theorem decl_alike (mirrors : linkage.Mirrors move mirror) (decl : Decl) :
    LinksAlike move (linkage.decl decl) (mirror.decl (decl.relocate move)) :=
  LinksAlike.foldlM (fun _ _ var mirrors => varDef_alike decl mirrors var) decl.defs mirrors

theorem Mirrors.useExpr (mirrors : linkage.Mirrors move mirror) (expr : Expr) :
    (linkage.use (expr.bindings linkage.table)).Mirrors move
      (mirror.use ((expr.relocate move).bindings mirror.table)) := by
  have used := mirrors.use (expr.bindings linkage.table)
  rwa [← Expr.bindings_relocate, ← mirrors.table] at used

mutual

theorem stmt_alike {linkage mirror : Linkage} (mirrors : linkage.Mirrors move mirror) (stmt : Stmt) :
    LinksAlike move (linkage.stmt stmt) (mirror.stmt (stmt.relocate move)) :=
  match stmt with
  | .block items _ => by
    rw [Linkage.stmt, Stmt.relocate, Linkage.stmt]
    exact (blockItems_alike (mirrors.enter "block") items).bind fun _ _ mirrors => leave_alike mirrors
  | .assign target indices span value _ => by
    have used := mirrors.use ((Expr.lval target indices span).bindings linkage.table ++ value.bindings linkage.table)
    rw [map_append, ← Expr.bindings_relocate, ← Expr.bindings_relocate, ← mirrors.table] at used
    rw [Linkage.stmt, Stmt.relocate, Linkage.stmt]
    exact .ok used
  | .expr (some value) _ | .giveBack (some value) _ => .ok (mirrors.useExpr value)
  | .expr none _ | .giveBack none _ | .breakLoop _ | .continueLoop _ => .ok mirrors
  | .branch condition thenPart none _ => by
    rw [Linkage.stmt, Stmt.relocate, Linkage.stmt]
    exact (stmt_alike (mirrors.useExpr condition) thenPart).bind fun _ _ mirrors => .ok mirrors
  | .branch condition thenPart (some elsePart) _ => by
    rw [Linkage.stmt, Stmt.relocate, Linkage.stmt]
    exact (stmt_alike (mirrors.useExpr condition) thenPart).bind fun _ _ mirrors => stmt_alike mirrors elsePart
  | .loop condition body _ => by
    rw [Linkage.stmt, Stmt.relocate, Linkage.stmt]
    exact stmt_alike (mirrors.useExpr condition) body

theorem blockItems_alike {linkage mirror : Linkage} (mirrors : linkage.Mirrors move mirror) (items : List BlockItem) :
    LinksAlike move (linkage.blockItems items) (mirror.blockItems (BlockItem.relocateAll move items)) :=
  match items with
  | [] => .ok mirrors
  | first :: rest => by
    rw [Linkage.blockItems, BlockItem.relocateAll, Linkage.blockItems]
    exact (blockItem_alike mirrors first).bind fun _ _ mirrors => blockItems_alike mirrors rest

theorem blockItem_alike {linkage mirror : Linkage} (mirrors : linkage.Mirrors move mirror) (item : BlockItem) :
    LinksAlike move (linkage.blockItem item) (mirror.blockItem (item.relocate move)) :=
  match item with
  | .decl declaration => decl_alike mirrors declaration
  | .stmt statement => stmt_alike mirrors statement

end

theorem param_alike (mirrors : linkage.Mirrors move mirror) (param : Param) :
    LinksAlike move (linkage.param param) (mirror.param (param.relocate move)) := by
  have dims := mirrors.use (Expr.bindingsOfAll linkage.table param.dims)
  rw [← Expr.bindingsOfAll_relocateAll, ← mirrors.table, Expr.relocateAll_eq] at dims
  exact define_alike dims (.parameter param)

theorem function_alike (mirrors : linkage.Mirrors move mirror) (func : FuncDef) :
    LinksAlike move (linkage.function func) (mirror.function (func.relocate move)) := by
  have params := LinksAlike.foldlM (fun _ _ param mirrors => param_alike mirrors param) func.params
    (mirrors.enter func.name)
  refine params.bind fun _ _ mirrors => ?_
  have body := blockItems_alike mirrors func.body
  rw [BlockItem.relocateAll_eq] at body
  exact body.bind fun _ _ mirrors => leave_alike mirrors

theorem item_alike (mirrors : linkage.Mirrors move mirror) (item : Item) :
    LinksAlike move (linkage.item item) (mirror.item (item.relocate move)) :=
  match item with
  | .decl declaration => decl_alike mirrors declaration
  | .func func => function_alike mirrors func

end Linkage

/-- Links a skeleton, with the skeletons of the functions of the library. -/
def CompUnit.linkBare (unit : CompUnit) : Except LinkStop Linkage := do
  let functions := (unit.functions ++ Library.functions.map (·.relocate (.pinned id))).map .function
  let linkage ← functions.foldlM Linkage.define Linkage.empty
  unit.items.foldlM Linkage.item linkage

/-- Linking a program and linking its skeleton come to the same. The functions of the library use no names and define
no variables, so all skeletons of them are the same. -/
theorem CompUnit.link_alike (pin : Span → Span) (unit : CompUnit) :
    LinksAlike (.pinned pin) unit.link (unit.relocate (.pinned pin)).linkBare := by
  have functions : ((unit.functions ++ Library.functions).map Declaration.function).map (·.relocate (.pinned pin)) =
      ((unit.relocate (.pinned pin)).functions ++ Library.functions.map (·.relocate (.pinned id))).map .function := by
    have library : Library.functions.map (·.relocate (.pinned pin)) = Library.functions.map (·.relocate (.pinned id)) :=
      rfl
    rw [Violations.functions_relocate, ← library, ← map_append, map_map, map_map]
    rfl
  have start : Linkage.empty.Mirrors (.pinned pin) .empty := ⟨rfl, rfl⟩
  rw [CompUnit.link, CompUnit.linkBare, ← functions]
  refine (LinksAlike.foldlM (fun _ _ declaration mirrors => Linkage.define_alike mirrors declaration) _ start).bind ?_
  exact fun _ _ mirrors =>
    LinksAlike.foldlM (fun _ _ item mirrors => Linkage.item_alike mirrors item) unit.items mirrors

end SysYTools
