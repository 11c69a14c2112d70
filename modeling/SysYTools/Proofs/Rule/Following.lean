import SysYTools.Proofs.Rule.Checking
import SysYTools.Proofs.Scope.Relocation
import SysYTools.Proofs.Tree.Nesting

/-!
Checking two programs of which one has moved. A local variable is used where a name means it through the scopes
of its function, and these move along with the places in them. So it is enough to know at which places the
variables outside of functions have a meaning: then the rules find the moved reports at every place that has
moved.
-/

namespace SysYTools

open List

variable {move : Relocation}
variable {decl : Decl} {declaration : Declaration} {node : Node} {site : Node.Site} {var : VarDef}

/-! ## Uses of variables -/

def Declaration.place? : Declaration → Option Span
  | .variable _ var => some var.nameSpan
  | .parameter _ | .function _ => none

def CompUnit.Uses (unit : CompUnit) (place : Span) : Prop :=
  ∃ site ∈ (Node.unit unit).sites, ∃ reference indices span, site.node = .expr (.lval reference indices span) ∧
    (Lexical.variableTarget unit site.ancestors reference).bind (·.place?) = some place

section Linked

variable {unit : CompUnit} (aligned : unit.Aligned) {linkage : Linkage}
  (linked : unit.link = .ok linkage)
include aligned linked

theorem CompUnit.uses_iff (var : VarDef) : linkage.uses var = true ↔ unit.Uses var.nameSpan := by
  have run := CompUnit.link_links aligned
  rw [linked] at run
  obtain ⟨-, -, bindings⟩ := run
  rw [Linkage.uses, bindings, Node.bindings, any_filterMap, any_eq_true]
  refine exists_congr fun site => and_congr_right fun _ => ?_
  obtain ⟨node, ancestors⟩ := site
  cases node with
  | expr expression =>
    cases expression with
    | lval reference indices span =>
      have own : (∃ other others place, Node.expr (.lval reference indices span) = .expr (.lval other others place) ∧
          (Lexical.variableTarget unit ancestors other).bind (·.place?) = some var.nameSpan) ↔
          (Lexical.variableTarget unit ancestors reference).bind (·.place?) = some var.nameSpan := by
        constructor
        · rintro ⟨_, _, _, same, found⟩
          cases same
          exact found
        · exact fun found => ⟨reference, indices, span, rfl, found⟩
      rw [own]
      simp only [Node.Site.binding?]
      rcases Lexical.variableTarget unit ancestors reference with _ | (_ | _ | _) <;> simp [Declaration.place?]
    | call reference =>
      simp only [Node.Site.binding?, Lexical.functionTarget]
      cases unit.callables.find? (·.name == reference.name) <;> simp
    | _ => simp [Node.Site.binding?]
  | _ => simp [Node.Site.binding?]

end Linked

/-- Some use of a name means a variable at a place through the scopes of a function. -/
def CompUnit.UsesLocally (unit : CompUnit) (place : Span) : Prop :=
  ∃ site ∈ (Node.unit unit).sites, ∃ reference indices span, site.node = .expr (.lval reference indices span) ∧
    ((Lexical.localScopes site.ancestors).findSome? (Lexical.visible · reference)).bind (·.place?) = some place

namespace Node

theorem isLocal_sitesUnder (low : node.rank < 4) {ancestors : List Node}
    (outside : ancestors.any (·.kind == .func) = false) {site : Site} (member : site ∈ node.sitesUnder ancestors) :
    site.isLocal = false := by
  induction node using induction_children generalizing ancestors with
  | step node ih =>
    rw [sitesUnder_eq] at member
    rcases mem_cons.mp member with rfl | member
    · exact outside
    · obtain ⟨child, isChild, member⟩ := mem_flatMap.mp member
      refine ih child isChild ?_ ?_ member
      · rcases rank_of_mem_children isChild with lower | ⟨same, -⟩ <;> omega
      · have other : (node.kind == .func) = false := by
          cases node with
          | func => exact absurd low (by simp [rank])
          | stmt statement => cases statement <;> rfl
          | expr expression => cases expression <;> rfl
          | _ => rfl
        rw [any_cons, other, outside, Bool.false_or]

end Node

section

variable {unit : CompUnit} (aligned : unit.Aligned)
include aligned

theorem CompUnit.exists_item_of_variable
    (member : declaration ∈ unit.variables) {place : Span} (found : declaration.place? = some place) :
    ∃ decl, .decl decl ∈ unit.items ∧ place.Inside decl.span := by
  obtain ⟨item, isItem, member⟩ := mem_flatMap.mp member
  cases item with
  | func => cases member
  | decl decl =>
    obtain ⟨var, isVar, rfl⟩ := mem_map.mp member
    cases found
    have laid : (Node.decl decl).Laid := aligned.1 _ (mem_map.mpr ⟨_, isItem, rfl⟩)
    have isChild : Node.varDef var ∈ (Node.decl decl).children := mem_map_of_mem isVar
    have inner := ((laid.child isChild).fits.word var.nameSpan mem_cons_self).2.1
    exact ⟨decl, isItem, inner.trans (laid.fits.inside _ isChild)⟩

theorem CompUnit.exists_func_of_local
    (member : site ∈ (Node.unit unit).sites) (shape : site.node = .decl decl) (isLocal : site.isLocal = true)
    (isVar : var ∈ decl.defs) :
    ∃ func, .func func ∈ unit.items ∧ var.nameSpan.Inside func.span ∧ var.nameSpan.Ordered := by
  rw [Node.sites, Node.sitesUnder_eq] at member
  rcases mem_cons.mp member with rfl | member
  · cases shape
  obtain ⟨child, isChild, member⟩ := mem_flatMap.mp member
  have laid := aligned.1 child isChild
  obtain ⟨item, isItem, rfl⟩ := mem_map.mp isChild
  cases item with
  | decl global =>
    have outside := Node.isLocal_sitesUnder (show (Node.decl global).rank < 4 by simp [Node.rank]) rfl member
    exact absurd isLocal (by rw [outside]; decide)
  | func func =>
    obtain ⟨-, inside⟩ := (laid.sites_nodup [.unit unit]).2 site member
    have part : site.node ∈ (Node.func func).walk := by
      rw [← Node.map_node_sitesUnder [.unit unit]]
      exact mem_map_of_mem member
    have below := laid.of_mem_walk part
    rw [shape] at below inside
    have isVarDef : Node.varDef var ∈ (Node.decl decl).children := mem_map_of_mem isVar
    obtain ⟨ordered, inner, -⟩ := (below.child isVarDef).fits.word var.nameSpan mem_cons_self
    exact ⟨func, isItem, (inner.trans (below.fits.inside _ isVarDef)).trans inside, ordered⟩

theorem CompUnit.place_ne_of_local
    (member : site ∈ (Node.unit unit).sites) (shape : site.node = .decl decl) (isLocal : site.isLocal = true)
    (isVar : var ∈ decl.defs) (isGlobal : declaration ∈ unit.variables) : declaration.place? ≠ some var.nameSpan := by
  intro found
  obtain ⟨func, isFunc, inFunc, ordered⟩ := exists_func_of_local aligned member shape isLocal isVar
  obtain ⟨global, isDecl, inDecl⟩ := exists_item_of_variable aligned isGlobal found
  have sorted : (unit.items.map Item.node).Pairwise fun left right => left.span.Before right.span := aligned.2
  rw [pairwise_iff_getElem] at sorted
  have apart : (Node.decl global).span.Before (Node.func func).span ∨
      (Node.func func).span.Before (Node.decl global).span := by
    obtain ⟨i, hi, isDecl⟩ := mem_iff_getElem.mp (mem_map_of_mem (f := Item.node) isDecl)
    obtain ⟨j, hj, isFunc⟩ := mem_iff_getElem.mp (mem_map_of_mem (f := Item.node) isFunc)
    rcases Nat.lt_trichotomy i j with before | rfl | after
    · have order := sorted i j hi hj before
      rw [isDecl, isFunc] at order
      exact .inl order
    · cases isDecl.symm.trans isFunc
    · have order := sorted j i hj hi after
      rw [isDecl, isFunc] at order
      exact .inr order
  rcases apart with before | before
  · exact ordered.not_before ((before.of_inside_left inDecl).of_inside_right inFunc)
  · exact ordered.not_before ((before.of_inside_left inFunc).of_inside_right inDecl)

theorem CompUnit.uses_iff_locally
    (member : site ∈ (Node.unit unit).sites) (shape : site.node = .decl decl) (isLocal : site.isLocal = true)
    (isVar : var ∈ decl.defs) : unit.Uses var.nameSpan ↔ unit.UsesLocally var.nameSpan := by
  refine exists_congr fun place => and_congr_right fun _ => exists_congr fun reference => exists_congr fun indices =>
    exists_congr fun span => and_congr_right fun _ => ?_
  rw [Lexical.variableTarget]
  cases (Lexical.localScopes place.ancestors).findSome? (Lexical.visible · reference) with
  | some => exact Iff.rfl
  | none =>
    have foreign : ∀ declaration, Lexical.visible unit.variables reference = some declaration →
        declaration.place? ≠ some var.nameSpan := by
      intro declaration seen
      rw [Lexical.visible, Option.filter_eq_some_iff] at seen
      exact place_ne_of_local aligned member shape isLocal isVar (mem_of_find?_eq_some seen.1)
    dsimp only
    split
    · exact Iff.rfl
    · cases seen : Lexical.visible unit.variables reference with
      | none => exact Iff.rfl
      | some declaration => exact iff_of_false (foreign declaration seen) (by simp)

end

theorem Declaration.place?_relocate (move : Relocation) (declaration : Declaration) :
    (declaration.relocate move).place? = declaration.place?.map move.word := by
  cases declaration <;> rfl

theorem Node.exists_lval_of_relocate {reference : Reference} {indices : List Expr}
    {span : Span} (shape : node.relocate move = .expr (.lval reference indices span)) :
    ∃ old olds place, node = .expr (.lval old olds place) ∧ reference = old.relocate move := by
  cases node with
  | expr expression =>
    cases expression with
    | lval old olds place =>
      obtain ⟨rfl, -⟩ := Expr.lval.inj (Node.expr.inj shape)
      exact ⟨old, olds, place, rfl, rfl⟩
    | _ => cases shape
  | _ => cases shape

/-! ## Programs that have moved -/

/-- A linked program has moved to another one, as far as its uses of names go. Other parts may differ, but the
functions keep their contracts. -/
structure CompUnit.Moves (shift : ℤ ×ₗ ℤ → ℤ ×ₗ ℤ) (unit unit' : CompUnit) (linkage linkage' : Linkage) : Prop where
  mono : StrictMono shift
  aligned : unit.Aligned
  aligned' : unit'.Aligned
  linked : unit.link = .ok linkage
  linked' : unit'.link = .ok linkage'
  promises : unit.Promises unit'
  forth : ∀ site ∈ (Node.unit unit).sites, site.node.reference? ≠ none →
    ∃ site' ∈ (Node.unit unit').sites, site.Moves (.along shift) site'
  back : ∀ site' ∈ (Node.unit unit').sites, site'.node.reference? ≠ none →
    ∃ site ∈ (Node.unit unit).sites, site.Moves (.along shift) site'

namespace CompUnit.Moves

variable {shift : ℤ ×ₗ ℤ → ℤ ×ₗ ℤ} {unit unit' : CompUnit} {linkage linkage' : Linkage}
  (both : CompUnit.Moves shift unit unit' linkage linkage')
include both

theorem usesLocally_iff (place : Span) : unit'.UsesLocally (place.along shift) ↔ unit.UsesLocally place := by
  have same : ∀ {site site' : Node.Site}, site.Moves (.along shift) site' → ∀ reference : Reference,
      (((Lexical.localScopes site'.ancestors).findSome?
          (Lexical.visible · (reference.relocate (.along shift)))).bind (·.place?) = some (place.along shift) ↔
        ((Lexical.localScopes site.ancestors).findSome? (Lexical.visible · reference)).bind (·.place?) =
          some place) := by
    intro site site' moves reference
    rw [moves.localTarget both.mono]
    cases (Lexical.localScopes site.ancestors).findSome? (Lexical.visible · reference) with
    | none => exact iff_of_false nofun nofun
    | some declaration =>
      simp only [Option.map_some, Option.bind_some, Declaration.place?_relocate]
      cases declaration.place? with
      | none => exact iff_of_false nofun nofun
      | some =>
        simp only [Option.map_some, Option.some.injEq]
        exact (Span.along_injective both.mono).eq_iff
  constructor
  · rintro ⟨site', member', _, indices, span, shape', found⟩
    obtain ⟨site, member, moves⟩ := both.back site' member' (by rw [shape']; exact nofun)
    obtain ⟨reference, olds, old, shape, rfl⟩ := Node.exists_lval_of_relocate (moves.node.symm.trans shape')
    exact ⟨site, member, reference, olds, old, shape, (same moves reference).mp found⟩
  · rintro ⟨site, member, reference, _, _, shape, found⟩
    obtain ⟨site', member', moves⟩ := both.forth site member (by rw [shape]; exact nofun)
    have shape' := moves.node.trans (congrArg (Node.relocate (.along shift)) shape)
    exact ⟨site', member', _, _, _, shape', (same moves reference).mpr found⟩

theorem follows {site' : Node.Site} (moves : site.Moves (.along shift) site')
    (member : site ∈ (Node.unit unit).sites) (member' : site' ∈ (Node.unit unit').sites)
    (defined : ∀ reference indices span, site.node = .expr (.lval reference indices span) →
      (Lexical.variableTarget unit' site'.ancestors (reference.relocate (.along shift))).isSome =
        (Lexical.variableTarget unit site.ancestors reference).isSome) :
    site.Follows (.along shift) linkage linkage' site' where
  node := moves.node
  isLocal := moves.isLocal
  standsAlone := moves.standsAlone
  meaning := by
    intro reference isReference
    unfold Node.reference? at isReference
    split at isReference
    next own indices span shape =>
      cases isReference
      have shape' := moves.node.trans (congrArg (Node.relocate (.along shift)) shape)
      rw [CompUnit.target?_of_lval both.aligned both.linked member shape,
        CompUnit.target?_of_lval both.aligned' both.linked' member' shape', Lexical.contract_variableTarget,
        Lexical.contract_variableTarget, defined reference indices span shape]
    next own arguments span shape =>
      cases isReference
      have shape' := moves.node.trans (congrArg (Node.relocate (.along shift)) shape)
      rw [CompUnit.target?_of_call both.aligned both.linked member shape,
        CompUnit.target?_of_call both.aligned' both.linked' member' shape']
      exact both.promises.functionTarget rfl
    · cases isReference
  used := by
    intro decl shape isLocal var isVar
    have shape' := moves.node.trans (congrArg (Node.relocate (.along shift)) shape)
    have isVar' : var.relocate (.along shift) ∈ (decl.relocate (.along shift)).defs := mem_map_of_mem isVar
    rw [Bool.eq_iff_iff, CompUnit.uses_iff both.aligned both.linked, CompUnit.uses_iff both.aligned' both.linked',
      CompUnit.uses_iff_locally both.aligned member shape isLocal isVar,
      CompUnit.uses_iff_locally both.aligned' member' shape' (moves.isLocal.trans isLocal) isVar']
    exact both.usesLocally_iff var.nameSpan

end CompUnit.Moves

/-! ## Sites in their order -/

/-- A node that uses no name and has no dimension with too many digits. -/
def Node.Idle (node : Node) : Prop := node.reference? = none ∧ node.hasOverlongDim = false

namespace Node.Site

/-- Sites of two programs in their order. They move in pairs, but for idle ones of either program. -/
inductive Carried (move : Relocation) : List Site → List Site → Prop where
  | nil : Carried move [] []
  | moved {site site' : Site} {sites sites' : List Site} :
      site.Moves move site' → Carried move sites sites' → Carried move (site :: sites) (site' :: sites')
  | gone {site : Site} {sites sites' : List Site} :
      site.node.Idle → Carried move sites sites' → Carried move (site :: sites) sites'
  | added {site' : Site} {sites sites' : List Site} :
      site'.node.Idle → Carried move sites sites' → Carried move sites (site' :: sites')

namespace Carried

variable {move : Relocation} {sites sites' more more' : List Site}

theorem of_moves (moved : List.Forall₂ (Moves move) sites sites') : Carried move sites sites' := by
  induction moved with
  | nil => exact .nil
  | cons first _ ih => exact .moved first ih

theorem of_idle (idle : ∀ site ∈ sites', site.node.Idle) : Carried move [] sites' := by
  induction sites' with
  | nil => exact .nil
  | cons _ _ ih =>
    obtain ⟨own, rest⟩ := forall_mem_cons.mp idle
    exact .added own (ih rest)

theorem append (first : Carried move sites sites') (second : Carried move more more') :
    Carried move (sites ++ more) (sites' ++ more') := by
  induction first with
  | nil => exact second
  | moved moves _ ih => exact .moved moves ih
  | gone idle _ ih => exact .gone idle ih
  | added idle _ ih => exact .added idle ih

theorem forth (carried : Carried move sites sites') :
    ∀ site ∈ sites, ¬ site.node.Idle → ∃ site' ∈ sites', site.Moves move site' := by
  induction carried with
  | nil => exact forall_mem_nil _
  | moved moves _ ih =>
    refine forall_mem_cons.mpr ⟨fun _ => ⟨_, mem_cons_self, moves⟩, fun site member busy => ?_⟩
    obtain ⟨site', member', moves⟩ := ih site member busy
    exact ⟨site', mem_cons_of_mem _ member', moves⟩
  | gone idle _ ih => exact forall_mem_cons.mpr ⟨fun busy => absurd idle busy, ih⟩
  | added _ _ ih =>
    intro site member busy
    obtain ⟨site', member', moves⟩ := ih site member busy
    exact ⟨site', mem_cons_of_mem _ member', moves⟩

theorem back (carried : Carried move sites sites') :
    ∀ site' ∈ sites', ¬ site'.node.Idle → ∃ site ∈ sites, site.Moves move site' := by
  induction carried with
  | nil => exact forall_mem_nil _
  | moved moves _ ih =>
    refine forall_mem_cons.mpr ⟨fun _ => ⟨_, mem_cons_self, moves⟩, fun site' member' busy => ?_⟩
    obtain ⟨site, member, moves⟩ := ih site' member' busy
    exact ⟨site, mem_cons_of_mem _ member, moves⟩
  | gone _ _ ih =>
    intro site' member' busy
    obtain ⟨site, member, moves⟩ := ih site' member' busy
    exact ⟨site, mem_cons_of_mem _ member, moves⟩
  | added idle _ ih => exact forall_mem_cons.mpr ⟨fun busy => absurd idle busy, ih⟩

end Carried

end Node.Site

section Carried

variable {shift : ℤ ×ₗ ℤ → ℤ ×ₗ ℤ} {unit unit' : CompUnit}
  (carried : Node.Site.Carried (.along shift) (Node.unit unit).sites (Node.unit unit').sites)
  (aligned : unit.Aligned) (aligned' : unit'.Aligned)
  {linkage : Linkage} (linked : unit.link = .ok linkage)
include carried aligned aligned' linked

theorem CompUnit.Moves.of_carried (mono : StrictMono shift) (promises : unit.Promises unit') {linkage' : Linkage}
    (linked' : unit'.link = .ok linkage') : CompUnit.Moves shift unit unit' linkage linkage' where
  mono := mono
  aligned := aligned
  aligned' := aligned'
  linked := linked
  linked' := linked'
  promises := promises
  forth := fun site member uses => carried.forth site member fun idle => uses idle.1
  back := fun site' member' uses => carried.back site' member' fun idle => uses idle.1

theorem CompUnit.exists_link_of_carried : ∃ linkage', unit'.link = .ok linkage' := by
  have short := (CompUnit.link_isOk_iff aligned).mp ⟨linkage, linked⟩
  refine (CompUnit.link_isOk_iff aligned').mpr fun part member => ?_
  obtain ⟨site', member', rfl⟩ := mem_map.mp member
  by_cases idle : site'.node.Idle
  · exact idle.2
  · obtain ⟨_, isSite, moves⟩ := carried.back site' member' idle
    rw [moves.node, Node.hasOverlongDim_relocate]
    exact short _ (mem_map_of_mem isSite)

end Carried

theorem Report.flatMap_relocate {related : Node.Site → Node.Site → Prop}
    {sites sites' : List Node.Site} (pairs : List.Forall₂ related sites sites')
    {look look' : Node.Site → List Report} {keep : Report → Bool}
    (each : ∀ site ∈ sites, ∀ site' ∈ sites', related site site' →
      look' site' = ((look site).filter keep).map (·.relocate move)) :
    sites'.flatMap look' = ((sites.flatMap look).filter keep).map (·.relocate move) := by
  induction pairs with
  | nil => rfl
  | @cons site site' rest rest' first _ ih =>
    have tail := ih fun site isSite site' isSite' =>
      each site (mem_cons_of_mem _ isSite) site' (mem_cons_of_mem _ isSite')
    rw [flatMap_cons, flatMap_cons, filter_append, map_append, tail, each site mem_cons_self site' mem_cons_self first]

theorem CompUnit.items_move (shift : ℤ ×ₗ ℤ → ℤ ×ₗ ℤ) (unit unit' : CompUnit) (items : List Item) :
    List.Forall₂ (Node.Site.Moves (.along shift)) ((items.map Item.node).flatMap (·.sitesUnder [.unit unit]))
      ((items.map Item.node).flatMap fun node => (node.relocate (.along shift)).sitesUnder [.unit unit']) :=
  Node.moves_flatMap rfl _

/-! ## The whole program -/

namespace Violations

theorem uniqueFunctions_eq (unit : CompUnit) : uniqueFunctions unit =
    (repeated Prod.fst (unit.functions.map fun func => (func.name, func.nameSpan))).map fun title =>
      { problem := .duplicateFunction title.1, span := title.2 } := by
  rw [repeated_map, map_map]
  rfl

theorem uniqueFunctions_moves {unit unit' : CompUnit}
    (titles : unit'.functions.map (fun func => (func.name, func.nameSpan)) =
      unit.functions.map fun func => (func.name, move.place func.nameSpan)) :
    uniqueFunctions unit' = (uniqueFunctions unit).map (·.relocate move) := by
  have moved : unit'.functions.map (fun func => (func.name, func.nameSpan)) =
      (unit.functions.map fun func => (func.name, func.nameSpan)).map fun title => (title.1, move.place title.2) := by
    rw [titles, map_map]
    rfl
  rw [uniqueFunctions_eq, uniqueFunctions_eq, moved, repeated_map, map_map, map_map]
  rfl

end Violations

theorem Rulebook.violations_unit {unit unit' : CompUnit} (linkage linkage' : Linkage)
    (titles : unit'.functions.map (fun func => (func.name, func.nameSpan)) =
      unit.functions.map fun func => (func.name, move.place func.nameSpan)) (rulebook : Rulebook) :
    rulebook.violations linkage' ⟨.unit unit', []⟩ =
      (rulebook.violations linkage ⟨.unit unit, []⟩).map (·.relocate move) := by
  rw [Rulebook.violations, Rulebook.violations, map_flatMap]
  refine flatMap_congr fun rule _ => ?_
  cases rule with
  | uniqueFunctions => exact Violations.uniqueFunctions_moves titles
  | _ => rfl

/-! ## Codes -/

def Rule.codes : Rule → List Code
  | .uniqueNames => [.duplicateDeclaration]
  | .usedLocals => [.unusedVariable]
  | .arrayBounds => [.arraySizeOverflow]
  | .initializerShape => [.typeMismatch]
  | .definedVariable => [.undefinedVariable]
  | .uniqueFunctions => [.duplicateFunction]
  | .returnShape => [.missingReturn, .emptyReturn, .voidReturnValue]
  | .definedFunction => [.undefinedFunction]
  | .argumentCount => [.parameterMismatch]
  | .voidValue => [.voidAssignment]
  | .jumpsInLoops => [.invalidBreakContinue]

theorem Violations.code_of_strayJumps {stmt : Stmt} {report : Report} (member : report ∈ strayJumps false stmt) :
    report.problem.code = .invalidBreakContinue := by
  have collected := @Checking.collect_jumps_stmt [] stmt
  rw [show List.any [] Breach.isLoop = false from rfl] at collected
  rw [← collected, Node.collect] at member
  obtain ⟨_, -, member⟩ := mem_flatMap.mp member
  unfold Breach.strayJumps at member
  split at member
  · split at member
    · cases member
    · rw [mem_singleton.mp member]
      rfl
  · split at member
    · cases member
    · rw [mem_singleton.mp member]
      rfl
  · cases member

theorem Rule.code_mem_codes {linkage : Linkage} {rule : Rule} {report : Report}
    (member : report ∈ rule.violations linkage site) : report.problem.code ∈ rule.codes := by
  cases rule with
  | uniqueNames =>
    simp only [violations] at member
    split at member
    · obtain ⟨var, -, rfl⟩ := mem_map.mp member
      exact mem_cons_self
    · cases member
  | usedLocals =>
    simp only [violations] at member
    split at member
    · split at member
      · obtain ⟨_, -, rfl⟩ := mem_map.mp member
        exact mem_cons_self
      · cases member
    · cases member
  | uniqueFunctions =>
    simp only [violations] at member
    split at member
    · obtain ⟨func, -, rfl⟩ := mem_map.mp member
      exact mem_cons_self
    · cases member
  | jumpsInLoops =>
    simp only [violations] at member
    split at member
    next func _ =>
      rw [@Violations.code_of_strayJumps (.block func.body func.bodySpan) report member]
      exact mem_cons_self
    · rw [Violations.code_of_strayJumps member]
      exact mem_cons_self
    · cases member
  | _ =>
    simp only [violations, Violations.returnShape, Violations.arrayBounds, Violations.initializerShape,
      Violations.definedVariable, Violations.definedFunction, Violations.argumentCount, Violations.voidValue]
      at member
    repeat' split at member
    all_goals simp_all [codes, Problem.code]

/-! ## Diagnostics -/

def Diagnostic.along (shift : ℤ ×ₗ ℤ → ℤ ×ₗ ℤ) (diagnostic : Diagnostic) : Diagnostic :=
  { diagnostic with
    labels := diagnostic.labels.map fun label => { label with span := label.span.along shift } }

theorem CheckSettings.present_along (settings : CheckSettings) (table : ExplanationTable)
    (shift : ℤ ×ₗ ℤ → ℤ ×ₗ ℤ) (report : Report) :
    settings.present table (.ofReport (report.relocate (.along shift))) =
      (settings.present table (.ofReport report)).along shift := by
  rw [Report.relocate_all]
  unfold present
  split <;> rfl

end SysYTools
