import SysYTools.Proofs.Span
import SysYTools.Scope.Declaration
import SysYTools.Tree.Node

/-!
The rule of lexical scoping. It says what a name means from the place where it stands: the nodes above the
place give the scopes around it, and the text gives the order of the definitions in them. Nothing is said
about the order in which names are met.
-/

namespace SysYTools

open List

variable {ancestors : List Node} {declaration : Declaration} {items : List BlockItem}

/-! ## Scopes -/

/-- The variables that a declaration defines, in the order of the text. -/
def Decl.variables (decl : Decl) : List Declaration := decl.defs.map (.variable decl)

def BlockItem.variables : BlockItem → List Declaration
  | .decl declaration => declaration.variables
  | .stmt _ => []

def Item.variables : Item → List Declaration
  | .decl declaration => declaration.variables
  | .func _ => []

/-- The parameters of a function and the variables declared directly in its body. -/
def FuncDef.variables (func : FuncDef) : List Declaration :=
  func.params.map .parameter ++ func.body.flatMap (·.variables)

/-- The variables declared outside of functions. -/
def CompUnit.variables (unit : CompUnit) : List Declaration := unit.items.flatMap (·.variables)

/-- The functions that a call can mean: those of the program, then those of the library. -/
def CompUnit.callables (unit : CompUnit) : List FuncDef := unit.functions ++ Library.functions

/-- The text of a definition, its dimensions and its initializer included. -/
def Declaration.span : Declaration → Span
  | .variable _ var => var.span
  | .parameter param => param.span
  | .function func => func.span

namespace Lexical

/-- The scopes around a place up to the global one, the innermost first, from the nodes above the place.
The body of a function is no scope of its own. -/
def localScopes : List Node → List (List Declaration)
  | [] => []
  | .stmt (.block _ _) :: .func func :: outer => func.variables :: localScopes outer
  | .stmt (.block items _) :: outer => items.flatMap (·.variables) :: localScopes outer
  | .func func :: outer => func.variables :: localScopes outer
  | _ :: outer => localScopes outer

/-- The first definition of a name in a scope, if it ends before the use of the name. -/
def visible (scope : List Declaration) (reference : Reference) : Option Declaration :=
  (scope.find? (·.name == reference.name)).filter (·.span.Before reference.span)

/-- What a variable means. In the global scope a name that a function has never means a variable. -/
def variableTarget (unit : CompUnit) (ancestors : List Node) (reference : Reference) :
    Option Declaration :=
  match (localScopes ancestors).findSome? (visible · reference) with
  | some declaration => some declaration
  | none => if unit.callables.any (·.name == reference.name) then none else visible unit.variables reference

/-- What a call means. -/
def functionTarget (unit : CompUnit) (reference : Reference) : Option Declaration :=
  (unit.callables.find? (·.name == reference.name)).map .function

/-! ## Scopes hold variables and parameters -/

theorem isFunction_of_mem_items (member : declaration ∈ items.flatMap (·.variables)) :
    declaration.isFunction = false := by
  obtain ⟨item, -, member⟩ := mem_flatMap.mp member
  cases item with
  | decl =>
    obtain ⟨_, -, rfl⟩ := mem_map.mp member
    rfl
  | stmt => cases member

theorem isFunction_of_mem_func {func : FuncDef} (member : declaration ∈ func.variables) :
    declaration.isFunction = false := by
  rcases mem_append.mp member with isParameter | isLocal
  · obtain ⟨_, -, rfl⟩ := mem_map.mp isParameter
    rfl
  · exact isFunction_of_mem_items isLocal

theorem isFunction_of_mem_unit {unit : CompUnit} {declaration : Declaration}
    (member : declaration ∈ unit.variables) : declaration.isFunction = false := by
  obtain ⟨item, -, member⟩ := mem_flatMap.mp member
  cases item with
  | decl =>
    obtain ⟨_, -, rfl⟩ := mem_map.mp member
    rfl
  | func => cases member

/-- The scope that a node makes. -/
def scopeOf : Node → List Declaration
  | .func func => func.variables
  | .stmt (.block items _) => items.flatMap (·.variables)
  | _ => []

theorem localScopes_sublist (ancestors : List Node) : (localScopes ancestors).Sublist (ancestors.map scopeOf) := by
  fun_induction localScopes ancestors with
  | case1 => exact .slnil
  | case2 _ _ _ _ ih => exact .cons _ (.cons_cons _ ih)
  | case3 _ _ _ _ ih => exact .cons_cons _ ih
  | case4 _ _ ih => exact .cons_cons _ ih
  | case5 _ _ _ _ _ ih => exact .cons _ ih

theorem exists_of_mem_localScopes {scope : List Declaration} (isScope : scope ∈ localScopes ancestors) :
    ∃ above ∈ ancestors, scopeOf above = scope :=
  mem_map.mp ((localScopes_sublist ancestors).subset isScope)

theorem isFunction_of_mem_localScopes {scope : List Declaration} (isScope : scope ∈ localScopes ancestors)
    (member : declaration ∈ scope) : declaration.isFunction = false := by
  obtain ⟨above, -, rfl⟩ := exists_of_mem_localScopes isScope
  unfold scopeOf at member
  split at member
  · exact isFunction_of_mem_func member
  · exact isFunction_of_mem_items member
  · cases member

theorem localScopes_block {span : Span} (inner : ∀ func outer, ancestors ≠ .func func :: outer) :
    localScopes (.stmt (.block items span) :: ancestors) = items.flatMap (·.variables) :: localScopes ancestors := by
  rw [localScopes]
  exact inner

end Lexical

end SysYTools
