import SysYTools.Proofs.Rule.Relocation
import SysYTools.Proofs.Scope.Resolution
import SysYTools.Proofs.Tree.Transport

/-!
Meanings of names under a change of places. A node is to the places below it a function, a block, a bare
expression or nothing special, and this decides about the scopes around a place. Two programs may differ in
some nodes: as long as the nodes above a place are to it what they were, a name in it has the changed meaning
of before.
-/

namespace SysYTools

open List

variable {ancestors ancestors' : List Node} {reference : Reference}

/-! ## What nodes are to the places below them -/

def Declaration.relocate (move : Relocation) : Declaration → Declaration
  | .variable decl var => .variable (decl.relocate move) (var.relocate move)
  | .parameter param => .parameter (param.relocate move)
  | .function func => .function (func.relocate move)

namespace Node

inductive Role where
  | function (scope : List Declaration)
  | block (scope : List Declaration)
  | bare
  | other

def Role.isFunction : Role → Bool
  | .function _ => true
  | _ => false

def Role.isBare : Role → Bool
  | .bare => true
  | _ => false

def role : Node → Role
  | .func function => .function function.variables
  | .stmt (.block items _) => .block (items.flatMap (·.variables))
  | .stmt (.expr _ _) => .bare
  | _ => .other

namespace Role

def relocate (move : Relocation) : Role → Role
  | .function scope => .function (scope.map (·.relocate move))
  | .block scope => .block (scope.map (·.relocate move))
  | .bare => .bare
  | .other => .other

/-- The scopes around a place, from what the nodes above it are. -/
def scopes : List Role → List (List Declaration)
  | [] => []
  | .block _ :: .function scope :: outer => scope :: scopes outer
  | .block scope :: outer => scope :: scopes outer
  | .function scope :: outer => scope :: scopes outer
  | .bare :: outer | .other :: outer => scopes outer

theorem scopes_relocate (move : Relocation) (roles : List Role) :
    scopes (roles.map (·.relocate move)) = (scopes roles).map (·.map (·.relocate move)) := by
  fun_induction scopes roles with
  | case1 => rfl
  | case2 _ _ _ ih => rw [map_cons, map_cons, relocate, relocate, scopes, ih, map_cons]
  | case3 _ outer inner ih =>
    rw [map_cons, relocate, scopes, ih, map_cons]
    intro others rest same
    cases outer with
    | nil => cases same
    | cons role outer =>
      obtain ⟨same, -⟩ := List.cons.inj same
      cases role with
      | function own => exact inner own outer rfl
      | _ => cases same
  | case4 _ _ ih => rw [map_cons, relocate, scopes, ih, map_cons]
  | case5 _ ih => rw [map_cons, relocate, scopes, ih]
  | case6 _ ih => rw [map_cons, relocate, scopes, ih]

end Role

theorem localScopes_eq (ancestors : List Node) : Lexical.localScopes ancestors = Role.scopes (ancestors.map role) := by
  fun_induction Lexical.localScopes ancestors with
  | case1 => rfl
  | case2 _ _ _ _ ih => rw [map_cons, map_cons, role, role, Role.scopes, ih]
  | case3 _ _ outer inner ih =>
    rw [map_cons, role, Role.scopes, ih]
    intro scope rest same
    cases outer with
    | nil => cases same
    | cons node outer =>
      obtain ⟨same, -⟩ := List.cons.inj same
      cases node with
      | func own => exact inner own outer rfl
      | stmt statement => cases statement <;> cases same
      | _ => cases same
  | case4 _ _ ih => rw [map_cons, role, Role.scopes, ih]
  | case5 node _ _ notBlock notFunc ih =>
    rw [map_cons, ih]
    cases node with
    | func own => exact absurd rfl (notFunc own)
    | stmt statement =>
      cases statement with
      | block items span => exact absurd rfl (notBlock items span)
      | _ => rfl
    | _ => rfl

variable {move : Relocation}

theorem variables_relocate (decl : Decl) : (decl.relocate move).variables = decl.variables.map (·.relocate move) := by
  simp [Decl.variables, Decl.relocate, Declaration.relocate, Function.comp_def]

theorem itemVariables_relocate (items : List BlockItem) :
    (items.map (·.relocate move)).flatMap (·.variables) = (items.flatMap (·.variables)).map (·.relocate move) := by
  rw [flatMap_map, map_flatMap]
  refine flatMap_congr fun item _ => ?_
  cases item with
  | decl declaration => exact variables_relocate declaration
  | stmt => rfl

theorem role_relocate (node : Node) : (node.relocate move).role = node.role.relocate move := by
  cases node with
  | func =>
    rw [role, Role.relocate, FuncDef.variables, map_append, ← itemVariables_relocate]
    simp [relocate, role, FuncDef.variables, FuncDef.relocate, Declaration.relocate, Function.comp_def]
  | stmt statement =>
    cases statement with
    | block =>
      rw [role, Role.relocate, ← itemVariables_relocate, ← BlockItem.relocateAll_eq]
      rfl
    | branch _ _ elsePart => cases elsePart <;> rfl
    | _ => rfl
  | _ => rfl

@[simp] theorem hasOverlongDim_relocate (node : Node) : (node.relocate move).hasOverlongDim = node.hasOverlongDim := by
  have expr : ∀ expr : Expr, (expr.relocate move).isOverlong = expr.isOverlong := by
    intro expr
    cases expr <;> rfl
  cases node with
  | varDef => simp [hasOverlongDim, VarDef.relocate, Function.comp_def, expr]
  | param => simp [hasOverlongDim, Param.relocate, Function.comp_def, expr]
  | _ => rfl

/-! ## Sites -/

/-- A site moves to another one: its node is relocated, and the nodes above it are relocated in what they are
to it. -/
structure Site.Moves (move : Relocation) (site site' : Site) : Prop where
  node : site'.node = site.node.relocate move
  roles : site'.ancestors.map role = (site.ancestors.map role).map (·.relocate move)

namespace Site.Moves

variable {site site' : Site} (moves : site.Moves move site')
include moves

theorem localScopes : Lexical.localScopes site'.ancestors =
    (Lexical.localScopes site.ancestors).map (·.map (·.relocate move)) := by
  rw [localScopes_eq, localScopes_eq, moves.roles, Role.scopes_relocate]

theorem isLocal : site'.isLocal = site.isLocal := by
  have ofRoles : ∀ ancestors : List Node, ancestors.any (·.kind == .func) =
      (ancestors.map role).any Role.isFunction := by
    intro ancestors
    rw [any_map]
    congr 1
    funext node
    cases node with
    | stmt statement => cases statement <;> rfl
    | expr expression => cases expression <;> rfl
    | _ => rfl
  rw [Site.isLocal, Site.isLocal, ofRoles, ofRoles, moves.roles, any_map]
  congr 1
  funext role
  cases role <;> rfl

theorem standsAlone : site'.standsAlone = site.standsAlone := by
  have ofRoles : ∀ site : Site, site.standsAlone = (site.ancestors.map role).head?.any Role.isBare := by
    rintro ⟨_, ancestors⟩
    rcases ancestors with _ | ⟨parent, _⟩
    · rfl
    · cases parent with
      | stmt statement => cases statement <;> rfl
      | _ => rfl
  rw [ofRoles, ofRoles, moves.roles, head?_map, Option.any_map]
  congr 1
  funext role
  cases role <;> rfl

end Site.Moves

theorem moves_sitesUnder
    (roles : ancestors'.map role = (ancestors.map role).map (·.relocate move)) (node : Node) :
    List.Forall₂ (Site.Moves move) (node.sitesUnder ancestors) ((node.relocate move).sitesUnder ancestors') := by
  induction node using induction_children generalizing ancestors ancestors' with
  | step node ih =>
    rw [sitesUnder_eq, sitesUnder_eq ancestors', children_relocate, flatMap_map]
    refine .cons ⟨rfl, roles⟩ ?_
    have below : (node.relocate move :: ancestors').map role =
        ((node :: ancestors).map role).map (·.relocate move) := by
      rw [map_cons, map_cons, map_cons, role_relocate, roles]
    have same : List.Forall₂ (fun left right => left = right ∧ left ∈ node.children) node.children
        node.children := List.forall₂_same.mpr fun child isChild => ⟨rfl, isChild⟩
    refine rel_flatMap same ?_
    rintro child _ ⟨rfl, isChild⟩
    exact ih child isChild below

theorem moves_flatMap
    (roles : ancestors'.map role = (ancestors.map role).map (·.relocate move)) (nodes : List Node) :
    List.Forall₂ (Site.Moves move) (nodes.flatMap (·.sitesUnder ancestors))
      (nodes.flatMap fun node => (node.relocate move).sitesUnder ancestors') := by
  refine rel_flatMap (List.forall₂_eq_eq_eq ▸ rfl) ?_
  rintro node _ rfl
  exact moves_sitesUnder roles node

end Node

/-! ## Variables -/

section Variables

open Lexical

variable {shift : ℤ ×ₗ ℤ → ℤ ×ₗ ℤ} (mono : StrictMono shift)
include mono

theorem Lexical.visible_along (scope : List Declaration) (reference : Reference) :
    visible (scope.map (·.relocate (.along shift))) (reference.relocate (.along shift)) =
      (visible scope reference).map (·.relocate (.along shift)) := by
  have names : (fun declaration : Declaration =>
      (declaration.relocate (.along shift)).name == (reference.relocate (.along shift)).name) =
      fun declaration => declaration.name == reference.name := by
    funext declaration
    cases declaration <;> rfl
  have spans : ∀ declaration : Declaration,
      (declaration.relocate (.along shift)).span.Before (reference.relocate (.along shift)).span ↔
        declaration.span.Before reference.span := by
    intro declaration
    cases declaration <;> exact Span.along_before_iff mono
  rw [visible, visible, List.find?_map, Function.comp_def, names]
  cases scope.find? (·.name == reference.name) with
  | none => rfl
  | some =>
    simp only [Option.map_some, Option.filter_some, spans]
    split <;> rfl

theorem Node.Site.Moves.localTarget {site site' : Node.Site} (moves : site.Moves (.along shift) site')
    (reference : Reference) :
    (Lexical.localScopes site'.ancestors).findSome? (visible · (reference.relocate (.along shift))) =
      ((Lexical.localScopes site.ancestors).findSome? (visible · reference)).map (·.relocate (.along shift)) := by
  rw [moves.localScopes]
  induction Lexical.localScopes site.ancestors with
  | nil => rfl
  | cons scope _ ih =>
    rw [map_cons, findSome?_cons, findSome?_cons, visible_along mono]
    cases visible scope reference with
    | none => exact ih
    | some => rfl

end Variables

theorem Lexical.isFunction_of_variableTarget {unit : CompUnit}
    {declaration : Declaration} (found : variableTarget unit ancestors reference = some declaration) :
    declaration.isFunction = false := by
  have ofVisible : ∀ {scope : List Declaration}, visible scope reference = some declaration →
      declaration ∈ scope := by
    intro scope seen
    rw [visible, Option.filter_eq_some_iff] at seen
    exact mem_of_find?_eq_some seen.1
  unfold variableTarget at found
  split at found
  next inner =>
    cases found
    obtain ⟨_, isScope, seen⟩ := exists_of_findSome?_eq_some inner
    exact isFunction_of_mem_localScopes isScope (ofVisible seen)
  · split at found
    · cases found
    · exact isFunction_of_mem_unit (ofVisible found)

theorem Lexical.contract_variableTarget (unit : CompUnit) (ancestors : List Node) (reference : Reference) :
    (variableTarget unit ancestors reference).map (·.contract) =
      if (variableTarget unit ancestors reference).isSome then some none else none := by
  cases found : variableTarget unit ancestors reference with
  | none => rfl
  | some declaration =>
    have isVariable := isFunction_of_variableTarget found
    cases declaration with
    | function => cases isVariable
    | _ => rfl

/-! ## Functions -/

/-- Two programs with the library have functions of the same contracts, in the same order. -/
def CompUnit.Promises (unit unit' : CompUnit) : Prop :=
  unit'.functions.map (·.contract) = unit.functions.map (·.contract)

namespace CompUnit.Promises

variable {unit unit' : CompUnit} (promises : unit.Promises unit')
include promises

theorem callables : unit'.callables.map (·.contract) = unit.callables.map (·.contract) := by
  rw [CompUnit.callables, CompUnit.callables, map_append, map_append, promises]

theorem any_name (name : String) : unit'.callables.any (·.name == name) = unit.callables.any (·.name == name) := by
  have ofContracts : ∀ functions : List FuncDef,
      functions.any (·.name == name) = (functions.map (·.contract)).any (·.1 == name) := by
    intro functions
    rw [any_map]
    rfl
  rw [ofContracts, ofContracts, promises.callables]

theorem functionTarget {reference' : Reference} (names : reference'.name = reference.name) :
    (Lexical.functionTarget unit' reference').map (·.contract) =
      (Lexical.functionTarget unit reference).map (·.contract) := by
  have ofContracts : ∀ (unit : CompUnit) (reference : Reference),
      (Lexical.functionTarget unit reference).map (·.contract) =
        ((unit.callables.map (·.contract)).find? (·.1 == reference.name)).map some := by
    intro unit reference
    rw [Lexical.functionTarget, List.find?_map, Option.map_map, Option.map_map]
    rfl
  rw [ofContracts, ofContracts, promises.callables, names]

end CompUnit.Promises

end SysYTools
