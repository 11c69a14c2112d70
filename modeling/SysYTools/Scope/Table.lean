import SysYTools.Fault

/-!
Tables of nested scopes. Each scope maps names to values, and an inner scope hides what the outer ones
say about a name. Within one scope the first definition of a name stays. Scopes are numbered in the
order in which they are opened, and closed scopes are kept for later questions.
-/

namespace SysYTools

structure Entry (σ : Type) where
  name : String
  scope : Nat
  value : σ
  deriving Repr

structure Scope (σ : Type) where
  number : Nat
  name : String
  /-- The number of the scope around this one. The global scope has none. -/
  parent : Option Nat
  /-- The names of the scope in the order of their definition. -/
  entries : List (Entry σ)
  deriving Repr

namespace Scope

variable {σ : Type}

def isGlobal (scope : Scope σ) : Bool := scope.parent.isNone

def find? (scope : Scope σ) (name : String) : Option (Entry σ) := scope.entries.find? (·.name == name)

def add (scope : Scope σ) (name : String) (value : σ) : Scope σ :=
  match scope.find? name with
  | some _ => scope
  | none => { scope with entries := scope.entries ++ [{ name, scope := scope.number, value }] }

end Scope

structure ScopeTable (σ : Type) where
  /-- The open scopes inside the global one, the innermost first. -/
  inner : List (Scope σ)
  global : Scope σ
  /-- The scopes that have been closed, the last one first. -/
  closed : List (Scope σ)
  deriving Repr

namespace ScopeTable

variable {σ : Type}

def empty : ScopeTable σ :=
  { inner := [], global := { number := 0, name := "global", parent := none, entries := [] }, closed := [] }

def count (table : ScopeTable σ) : Nat := table.inner.length + table.closed.length + 1

def current (table : ScopeTable σ) : Scope σ := table.inner.headD table.global

def push (table : ScopeTable σ) (name : String) : ScopeTable σ :=
  { table with
    inner :=
      { number := table.count, name, parent := some table.current.number, entries := [] } :: table.inner }

/-- Closes the innermost scope. The global scope stays open. -/
def pop (table : ScopeTable σ) : Except Fault (ScopeTable σ) :=
  match table.inner with
  | [] => .error .lastScope
  | scope :: outer => .ok { table with inner := outer, closed := scope :: table.closed }

/-- Defines a name in the innermost scope, unless that scope has it. -/
def define (table : ScopeTable σ) (name : String) (value : σ) : ScopeTable σ :=
  match table.inner with
  | [] => { table with global := table.global.add name value }
  | scope :: outer => { table with inner := scope.add name value :: outer }

/-- The meaning of a name at the current place: what the innermost scope that has it says. -/
def lookup (table : ScopeTable σ) (name : String) : Option (Entry σ) :=
  (table.inner ++ [table.global]).findSome? (·.find? name)

def scopes (table : ScopeTable σ) : List (Scope σ) :=
  (table.inner ++ table.closed ++ [table.global]).mergeSort (fun left right => left.number ≤ right.number)

end ScopeTable

end SysYTools
