import SysYTools.Proofs.Scope.Lexical
import SysYTools.Scope.Linkage

/-!
What a table of scopes says while names are linked. Each open scope holds the first definitions among those
met so far. At a place that splits every scope into the definitions before it and those that end behind it,
looking up a name in the table gives what the rule of lexical scoping gives.
-/

namespace SysYTools

open List

variable {declaration : Declaration}

/-- A scope knows the first declaration of each name of a list. -/
def Scope.Holds (scope : Scope Symbol) (declarations : List Declaration) : Prop :=
  ∀ name, (scope.find? name).map (·.value.declaration) = declarations.find? (·.name == name)

namespace Scope.Holds

variable {scope : Scope Symbol} {declarations : List Declaration}

theorem nil {number : Nat} {name : String} {parent : Option Nat} : Scope.Holds ⟨number, name, parent, []⟩ [] :=
  fun _ => rfl

theorem find?_eq_none (holds : scope.Holds declarations) {name : String} :
    scope.find? name = none ↔ declarations.find? (·.name == name) = none := by
  rw [← holds name, Option.map_eq_none_iff]

theorem keep (holds : scope.Holds declarations)
    (known : scope.find? declaration.name ≠ none) : scope.Holds (declarations ++ [declaration]) := by
  intro name
  rw [holds name, List.find?_append]
  by_cases same : declaration.name = name
  · obtain ⟨_, found⟩ := Option.ne_none_iff_exists'.mp fun missing => known (holds.find?_eq_none.mpr missing)
    rw [← same, found, Option.some_or]
  · simp [same]

theorem add (holds : scope.Holds declarations)
    (missing : scope.find? declaration.name = none) (dims : List (Option Int)) :
    (scope.add declaration.name ⟨declaration, dims⟩).Holds (declarations ++ [declaration]) := by
  intro name
  have added : (scope.add declaration.name ⟨declaration, dims⟩).find? name =
      (scope.find? name).or
        (if declaration.name = name then some ⟨declaration.name, scope.number, declaration, dims⟩
          else none) := by
    rw [Scope.add, missing]
    simp [Scope.find?, List.find?_append, find?_singleton]
  rw [added, List.find?_append, ← holds name]
  cases scope.find? name <;> by_cases same : declaration.name = name <;> simp [same]

end Scope.Holds

/-! ## Tables -/

/-- The open scopes of a table, the innermost first, know the declarations of the lists. -/
def SymbolTable.Shows (table : SymbolTable) (known : List (List Declaration)) : Prop :=
  List.Forall₂ Scope.Holds (table.inner ++ [table.global]) known

namespace SymbolTable.Shows

variable {table : SymbolTable} {known outer : List (List Declaration)} {scope : List Declaration}

theorem empty : SymbolTable.Shows ScopeTable.empty [[]] := .cons .nil .nil

theorem push (shows : table.Shows known) (name : String) :
    SymbolTable.Shows (ScopeTable.push table name) ([] :: known) :=
  .cons .nil shows

section

variable (shows : table.Shows (scope :: outer))
include shows

theorem pop (some : outer ≠ []) : ∃ popped, ScopeTable.pop table = .ok popped ∧ SymbolTable.Shows popped outer := by
  obtain ⟨inner, _, _⟩ := table
  cases inner with
  | nil =>
    cases shows with
    | cons _ rest => cases rest; exact absurd rfl some
  | cons =>
    cases shows with
    | cons _ rest => exact ⟨_, rfl, rest⟩

theorem current : table.current.Holds scope := by
  obtain ⟨inner, _, _⟩ := table
  cases inner <;> cases shows <;> assumption

theorem keep
    (known : table.current.find? declaration.name ≠ none) : table.Shows ((scope ++ [declaration]) :: outer) := by
  obtain ⟨inner, _, _⟩ := table
  cases inner <;> cases shows with
  | cons holds rest => exact .cons (holds.keep known) rest

theorem define
    (missing : table.current.find? declaration.name = none) (dims : List (Option Int)) :
    SymbolTable.Shows (ScopeTable.define table declaration.name ⟨declaration, dims⟩)
      ((scope ++ [declaration]) :: outer) := by
  obtain ⟨inner, _, _⟩ := table
  cases inner <;> cases shows with
  | cons holds rest => exact .cons (holds.add missing dims) rest

end

theorem lookup (shows : table.Shows known) (name : String) :
    (ScopeTable.lookup table name).map (·.value.declaration) = known.findSome? (·.find? (·.name == name)) := by
  rw [ScopeTable.lookup]
  unfold SymbolTable.Shows at shows
  generalize table.inner ++ [table.global] = scopes at shows
  induction shows with
  | nil => rfl
  | @cons scope declarations scopes lists holds _ ih =>
    rw [findSome?_cons, findSome?_cons, ← holds name]
    cases scope.find? name with
    | none => exact ih
    | some => rfl

theorem global (shows : table.Shows (known ++ [scope])) : table.global.Holds scope := by
  have reversed := List.forall₂_reverse_iff.mpr shows
  rw [reverse_append, reverse_append] at reversed
  cases reversed
  assumption

end SymbolTable.Shows

/-! ## Places -/

/-- The functions of a program and of the library, and the variables outside of functions. -/
def CompUnit.globalScope (unit : CompUnit) : List Declaration := unit.callables.map .function ++ unit.variables

/-- The declarations of a scope, cut in two. -/
structure Frame where
  before : List Declaration
  after : List Declaration

namespace Frame

def all (frame : Frame) : List Declaration := frame.before ++ frame.after

/-- The cut is at a place: what stands before the cut ends before the place, and what stands behind the cut
does not end before the place ends. Functions are known from the start. -/
structure Around (frame : Frame) (place : Span) : Prop where
  before : ∀ declaration ∈ frame.before, declaration.isFunction = false → declaration.span.Before place
  after : ∀ declaration ∈ frame.after, declaration.isFunction = false ∧ place.last ≤ declaration.span.last

variable {frame : Frame}

theorem Around.inside {inner outer : Span} (around : frame.Around outer) (inside : inner.Inside outer) :
    frame.Around inner where
  before declaration member isVariable := (around.before declaration member isVariable).of_inside_right inside
  after declaration member := ⟨(around.after declaration member).1, inside.2.trans (around.after declaration member).2⟩

theorem Around.find?_before {reference : Reference} (around : frame.Around reference.span)
    (ordered : reference.span.Ordered) :
    frame.before.find? (·.name == reference.name) =
      (frame.all.find? (·.name == reference.name)).filter fun declaration =>
        declaration.isFunction || decide (declaration.span.Before reference.span) := by
  rw [all, List.find?_append]
  cases first : frame.before.find? (·.name == reference.name) with
  | some declaration =>
    have order := around.before declaration (mem_of_find?_eq_some first)
    cases isFunction : declaration.isFunction <;> simp_all [Option.filter]
  | none =>
    rw [Option.none_or]
    cases later : frame.after.find? (·.name == reference.name) with
    | none => rfl
    | some declaration =>
      obtain ⟨isVariable, behind⟩ := around.after declaration (mem_of_find?_eq_some later)
      have order := Span.not_before_of_last_le ordered behind
      simp [Option.filter, isVariable, order]

end Frame

private theorem findSome?_congr {α β : Type} {left right : α → Option β} {items : List α}
    (same : ∀ item ∈ items, left item = right item) : items.findSome? left = items.findSome? right := by
  rw [← head?_filterMap, ← head?_filterMap, filterMap_congr same]

namespace SymbolTable.Shows

variable {table : SymbolTable} {frames : List Frame} {unit : CompUnit} {ancestors : List Node}
  {reference : Reference}

private theorem lookup_eq (shows : table.Shows (frames.map (·.before)))
    (around : ∀ frame ∈ frames, frame.Around reference.span) (ordered : reference.span.Ordered) :
    (ScopeTable.lookup table reference.name).map (·.value.declaration) =
      (frames.map (·.all)).findSome? fun scope =>
        (scope.find? (·.name == reference.name)).filter fun declaration =>
          declaration.isFunction || decide (declaration.span.Before reference.span) := by
  rw [shows.lookup, findSome?_map, findSome?_map]
  exact findSome?_congr fun frame member => (around frame member).find?_before ordered

section

variable {scope : List Declaration} (plain : ∀ declaration ∈ scope, declaration.isFunction = false)
include plain

private theorem visible_eq :
    ((scope.find? (·.name == reference.name)).filter fun declaration =>
      declaration.isFunction || decide (declaration.span.Before reference.span)) =
      Lexical.visible scope reference := by
  rw [Lexical.visible]
  cases found : scope.find? (·.name == reference.name) with
  | none => rfl
  | some declaration => simp [Option.filter, plain declaration (mem_of_find?_eq_some found)]

private theorem isFunction_of_visible
    (found : Lexical.visible scope reference = some declaration) : declaration.isFunction = false := by
  rw [Lexical.visible, Option.filter_eq_some_iff] at found
  exact plain declaration (mem_of_find?_eq_some found.1)

end

private theorem find?_globalScope (name : String) :
    unit.globalScope.find? (·.name == name) =
      ((unit.callables.find? (·.name == name)).map .function).or (unit.variables.find? (·.name == name)) := by
  rw [CompUnit.globalScope, List.find?_append, List.find?_map]
  rfl

private theorem global_variable :
    ((unit.globalScope.find? (·.name == reference.name)).filter fun declaration =>
        declaration.isFunction || decide (declaration.span.Before reference.span)).filter (!·.isFunction) =
      if unit.callables.any (·.name == reference.name) then none else Lexical.visible unit.variables reference := by
  rw [find?_globalScope, ← isSome_find?]
  cases unit.callables.find? (·.name == reference.name) with
  | some => rfl
  | none =>
    have plain := fun declaration => @Lexical.isFunction_of_mem_unit unit declaration
    rw [Option.map_none, Option.none_or, visible_eq plain]
    cases found : Lexical.visible unit.variables reference with
    | none => rfl
    | some => simp [Option.filter, isFunction_of_visible plain found]

private theorem filter_find?_append {declarations others : List Declaration}
    (plain : ∀ declaration ∈ others, declaration.isFunction = false) (name : String) :
    ((declarations ++ others).find? (·.name == name)).filter (·.isFunction) =
      (declarations.find? (·.name == name)).filter (·.isFunction) := by
  rw [List.find?_append]
  cases declarations.find? (·.name == name) with
  | some => rfl
  | none =>
    cases found : others.find? (·.name == name) with
    | none => rfl
    | some declaration => simp [Option.filter, plain declaration (mem_of_find?_eq_some found)]

variable (shows : table.Shows (frames.map (·.before)))
  (scopes : frames.map (·.all) = Lexical.localScopes ancestors ++ [unit.globalScope])
  (around : ∀ frame ∈ frames, frame.Around reference.span)
include shows scopes around

/-- At a place that cuts all scopes, looking up a variable follows the rule of lexical scoping. -/
theorem variableTarget (ordered : reference.span.Ordered) :
    table.variableTarget reference.name = Lexical.variableTarget unit ancestors reference := by
  have target : table.variableTarget reference.name =
      ((ScopeTable.lookup table reference.name).map (·.value.declaration)).filter (!·.isFunction) := by
    rw [SymbolTable.variableTarget]
    cases ScopeTable.lookup table reference.name with
    | none => rfl
    | some entry => cases isFunction : entry.value.declaration.isFunction <;> simp [Option.filter, isFunction]
  have locals := findSome?_congr fun scope (isScope : scope ∈ Lexical.localScopes ancestors) =>
    @visible_eq reference scope fun declaration => Lexical.isFunction_of_mem_localScopes isScope
  rw [target, shows.lookup_eq around ordered, scopes, findSome?_append, locals, Lexical.variableTarget]
  cases found : (Lexical.localScopes ancestors).findSome? (Lexical.visible · reference) with
  | some declaration =>
    obtain ⟨_, isScope, first⟩ := exists_of_findSome?_eq_some found
    have isVariable := isFunction_of_visible (fun declaration => Lexical.isFunction_of_mem_localScopes isScope) first
    simp [Option.filter, isVariable]
  | none =>
    rw [Option.none_or, findSome?_singleton]
    exact global_variable

theorem callTarget : table.callTarget reference.name = Lexical.functionTarget unit reference := by
  obtain ⟨_, _, rfl, -, isGlobal⟩ := map_eq_append_iff.mp scopes
  obtain ⟨outermost, rfl, whole⟩ := map_eq_singleton_iff.mp isGlobal
  rw [map_append, map_singleton] at shows
  have later := fun declaration member => ((around outermost (by simp)).after declaration member).1
  calc table.callTarget reference.name
      = ((table.global.find? reference.name).map (·.value.declaration)).filter (·.isFunction) := by
        rw [SymbolTable.callTarget]
        cases table.global.find? reference.name with
        | none => rfl
        | some entry => cases isFunction : entry.value.declaration.isFunction <;> simp [Option.filter, isFunction]
    _ = (outermost.before.find? (·.name == reference.name)).filter (·.isFunction) := by
        rw [shows.global reference.name]
    _ = (unit.globalScope.find? (·.name == reference.name)).filter (·.isFunction) := by
        rw [← whole, Frame.all, filter_find?_append later]
    _ = ((unit.callables.map .function).find? (·.name == reference.name)).filter (·.isFunction) :=
        filter_find?_append (fun _ => Lexical.isFunction_of_mem_unit) _
    _ = Lexical.functionTarget unit reference := by
        rw [Lexical.functionTarget, List.find?_map]
        cases found : unit.callables.find? (·.name == reference.name) <;>
          simp [Option.filter, Function.comp_def, Declaration.name, Declaration.isFunction, found]

end SymbolTable.Shows

end SysYTools
