import SysYTools.Proofs.Analysis
import SysYTools.Proofs.Rule.Following

/-!
One more variable in front of a program. It gives a meaning to every use of its name that no scope of a function gives
one to, unless a function has the name; all other reports move along with the program.
-/

namespace SysYTools

open List Lexical

variable {indices : List Expr} {reference : Reference} {site site' : Node.Site} {span : Span}

/-- A program with a variable in front of it that is no array and starts as a literal says. -/
structure CompUnit.Prefixed (shift : ℤ ×ₗ ℤ → ℤ ×ₗ ℤ) (unit unit' : CompUnit) (decl : Decl) (var : VarDef) :
    Prop where
  items : unit'.items = .decl decl :: unit.items.map (·.relocate (.along shift))
  defs : decl.defs = [var]
  dims : var.dims = []
  init : ∃ value place, var.init = some (.expr (.intLit value place))

/-- The reports that stay when a name gets a meaning: all of them if the name is that of a function. -/
def CompUnit.keeps (unit : CompUnit) (name : String) (report : Report) : Bool :=
  unit.callables.any (·.name == name) || report.problem != .undefinedVariable name

namespace CheckSettings

theorem rulesFor_lval (settings : CheckSettings) :
    (settings.select Rulebook.standard).rulesFor .lval = [.definedVariable] := by
  unfold select
  split <;> rfl

theorem kind_of_definedVariable (settings : CheckSettings) {kind : NodeKind}
    (member : .definedVariable ∈ (settings.select Rulebook.standard).rulesFor kind) : kind = .lval := by
  revert member
  unfold select
  split <;> cases kind <;> decide

theorem lval_of_undefinedVariable (settings : CheckSettings) {linkage : Linkage} {report : Report} {name : String}
    (member : report ∈ (settings.select Rulebook.standard).violations linkage site)
    (missing : report.problem = .undefinedVariable name) :
    ∃ reference indices span, site.node = .expr (.lval reference indices span) ∧ reference.name = name ∧
      report.span = reference.span := by
  obtain ⟨rule, isRule, member⟩ := mem_flatMap.mp member
  have code := Rule.code_mem_codes member
  rw [missing] at code
  obtain rfl : rule = .definedVariable := by
    cases rule with
    | definedVariable => rfl
    | _ => simp [Rule.codes, Problem.code] at code
  have kind := settings.kind_of_definedVariable isRule
  obtain ⟨node, _⟩ := site
  cases node with
  | expr expression =>
    cases expression with
    | lval reference indices span =>
      simp only [Rule.violations, Violations.definedVariable] at member
      split at member
      · cases member
      · obtain rfl := mem_singleton.mp member
        exact ⟨reference, indices, span, rfl, Problem.undefinedVariable.inj missing, rfl⟩
    | call => cases kind
    | _ => cases member
  | _ => cases member

end CheckSettings

namespace CompUnit.Prefixed

variable {shift : ℤ ×ₗ ℤ → ℤ ×ₗ ℤ} {unit unit' : CompUnit} {decl : Decl} {var : VarDef}
  (fronted : CompUnit.Prefixed shift unit unit' decl var)
include fronted

theorem functions : unit'.functions = unit.functions.map (·.relocate (.along shift)) := by
  rw [← Violations.functions_relocate, CompUnit.functions, CompUnit.functions, fronted.items]
  rfl

theorem titles : unit'.functions.map (fun func => (func.name, func.nameSpan)) =
    unit.functions.map fun func => (func.name, (Relocation.along shift).place func.nameSpan) := by
  rw [fronted.functions, map_map]
  rfl

theorem promises : unit.Promises unit' := by
  rw [CompUnit.Promises, fronted.functions, map_map]
  refine map_congr_left fun func _ => ?_
  simp [FuncDef.contract, FuncDef.relocate]

theorem globals : unit'.variables = .variable decl var :: unit.variables.map (·.relocate (.along shift)) := by
  rw [CompUnit.variables, fronted.items, flatMap_cons, flatMap_map, CompUnit.variables, map_flatMap]
  have own : (Item.decl decl).variables = [.variable decl var] := by
    simp [Item.variables, Decl.variables, fronted.defs]
  rw [own, singleton_append]
  congr 1
  refine flatMap_congr fun item _ => ?_
  cases item with
  | decl declaration => exact Node.variables_relocate declaration
  | func => rfl

/-! ## Sites -/

theorem sites_eq : (Node.unit unit').sites =
    ⟨.unit unit', []⟩ :: ((Node.decl decl).sitesUnder [.unit unit'] ++
      (unit.items.map Item.node).flatMap fun node => (node.relocate (.along shift)).sitesUnder [.unit unit']) := by
  rw [Node.sites, Node.sitesUnder_eq]
  congr 1
  change (unit'.items.map Item.node).flatMap _ = _
  rw [fronted.items, map_cons, flatMap_cons, map_map, flatMap_map, flatMap_map]
  congr 1
  refine flatMap_congr fun item _ => ?_
  rw [Node.relocate_item]
  rfl

theorem quiet (member : site ∈ (Node.decl decl).sitesUnder [.unit unit']) :
    site.node.Idle ∧ ∀ (rulebook : Rulebook) (linkage : Linkage), rulebook.violations linkage site = [] := by
  obtain ⟨_, _, init⟩ := fronted.init
  have dims := fronted.dims
  simp only [Node.sitesUnder_eq, Node.children, fronted.defs, init, dims, InitVal.node, map_cons,
    map_nil, flatMap_cons, flatMap_nil, append_nil, nil_append, Option.map_some,
    Option.toList_some, mem_cons, not_mem_nil, or_false] at member
  have none : ∀ rule : Rule, ∀ linkage : Linkage, rule.violations linkage site = [] := by
    intro rule linkage
    rcases member with rfl | rfl | rfl
    · cases rule with
      | uniqueNames => simp [Rule.violations, Violations.uniqueNames, Violations.repeated, Violations.repeated.go,
          fronted.defs]
      | _ => rfl
    · cases rule with
      | arrayBounds => simp [Rule.violations, Violations.arrayBounds, dims]
      | initializerShape => simp [Rule.violations, Violations.initializerShape, init, dims, VarDef.isArray]
      | _ => rfl
    · cases rule <;> rfl
  refine ⟨?_, fun rulebook linkage => ?_⟩
  · rcases member with rfl | rfl | rfl
    · exact ⟨rfl, rfl⟩
    · exact ⟨rfl, by simp [Node.hasOverlongDim, dims]⟩
    · exact ⟨rfl, rfl⟩
  · rw [Rulebook.violations, flatMap_eq_nil_iff]
    exact fun rule _ => none rule linkage

theorem carried : Node.Site.Carried (.along shift) (Node.unit unit).sites (Node.unit unit').sites := by
  rw [fronted.sites_eq, Node.sites, Node.sitesUnder_eq]
  exact .gone ⟨rfl, rfl⟩ (.added ⟨rfl, rfl⟩ ((Node.Site.Carried.of_idle fun _ member => (fronted.quiet member).1).append
    (.of_moves (CompUnit.items_move shift unit unit' unit.items))))

/-! ## Meanings -/

theorem target (mono : StrictMono shift) (moves : site.Moves (.along shift) site')
    (other : reference.name ≠ var.name ∨ unit.callables.any (·.name == var.name) = true) :
    variableTarget unit' site'.ancestors (reference.relocate (.along shift)) =
      (variableTarget unit site.ancestors reference).map (·.relocate (.along shift)) := by
  rw [variableTarget, variableTarget, moves.localTarget mono]
  cases (localScopes site.ancestors).findSome? (visible · reference) with
  | some => rfl
  | none =>
    simp only [Option.map_none]
    rw [show (reference.relocate (.along shift)).name = reference.name from rfl, fronted.promises.any_name]
    by_cases callable : unit.callables.any (·.name == reference.name) = true
    · rw [if_pos callable, if_pos callable]
      rfl
    · have differs : ((Declaration.variable decl var).name == (reference.relocate (.along shift)).name) = false := by
        rw [beq_eq_false_iff_ne]
        rintro (same : var.name = reference.name)
        rcases other with other | other
        · exact other same.symm
        · exact callable (same ▸ other)
      rw [if_neg callable, if_neg callable, ← visible_along mono, fronted.globals, visible, visible,
        find?_cons, differs]

section Uses

variable (aligned' : unit'.Aligned) (member' : site' ∈ (unit.items.map Item.node).flatMap fun node =>
    (node.relocate (.along shift)).sitesUnder [.unit unit'])
  (shape : site'.node = .expr (.lval reference indices span))
include aligned' member' shape

theorem before_of_mem : var.span.Before reference.span := by
  have children : (Node.unit unit').children =
      .decl decl :: (unit.items.map Item.node).map (·.relocate (.along shift)) := by
    change unit'.items.map Item.node = _
    rw [fronted.items, map_cons, map_map, map_map]
    congr 1
    refine map_congr_left fun item _ => ?_
    exact (Node.relocate_item item).symm
  obtain ⟨laid, sorted⟩ := aligned'
  rw [children] at laid sorted
  obtain ⟨node, isNode, member'⟩ := mem_flatMap.mp member'
  have isChild := mem_map_of_mem (f := (·.relocate (.along shift))) isNode
  have order := (pairwise_cons.mp sorted).1 _ isChild
  have laidNode := laid _ (mem_cons_of_mem _ isChild)
  have part : site'.node ∈ (node.relocate (.along shift)).walk := by
    rw [← Node.map_node_sitesUnder [.unit unit']]
    exact mem_map_of_mem member'
  have inside := ((laidNode.sites_nodup [.unit unit']).2 site' member').2
  have below := (laidNode.of_mem_walk part).fits
  rw [shape] at below inside
  have isVar : Node.varDef var ∈ (Node.decl decl).children := by simp [Node.children, fronted.defs]
  have own := (laid _ mem_cons_self).fits.inside _ isVar
  have word := (below.word reference.span mem_cons_self).2.1
  exact (order.of_inside_left own).of_inside_right (word.trans inside)

theorem target_own (free : unit.callables.any (·.name == var.name) = false) (same : reference.name = var.name) :
    (variableTarget unit' site'.ancestors reference).isSome = true := by
  have before := fronted.before_of_mem aligned' member' shape
  rw [variableTarget]
  split
  · rfl
  · have named : ((Declaration.variable decl var).name == reference.name) = true := beq_iff_eq.mpr same.symm
    rw [fronted.promises.any_name, same, free, if_neg (by decide), fronted.globals, visible, find?_cons, named]
    simp [Option.filter, Declaration.span, before]

end Uses

/-! ## Reports -/

variable {linkage linkage' : Linkage} (both : CompUnit.Moves shift unit unit' linkage linkage')
  (settings : CheckSettings)
include both

theorem violations_at
    (member : site ∈ (unit.items.map Item.node).flatMap (·.sitesUnder [.unit unit]))
    (member' : site' ∈ (unit.items.map Item.node).flatMap fun node =>
      (node.relocate (.along shift)).sitesUnder [.unit unit']) (moves : site.Moves (.along shift) site') :
    (settings.select Rulebook.standard).violations linkage' site' =
      (((settings.select Rulebook.standard).violations linkage site).filter (unit.keeps var.name)).map
        (·.relocate (.along shift)) := by
  have isSite : site ∈ (Node.unit unit).sites := by
    rw [Node.sites, Node.sitesUnder_eq]
    exact mem_cons_of_mem _ member
  have isSite' : site' ∈ (Node.unit unit').sites := by
    rw [fronted.sites_eq]
    exact mem_cons_of_mem _ (mem_append_right _ member')
  by_cases special : ∃ reference indices span, site.node = .expr (.lval reference indices span) ∧
      reference.name = var.name ∧ unit.callables.any (·.name == var.name) = false
  · obtain ⟨reference, indices, span, shape, same, free⟩ := special
    have shape' := moves.node.trans (congrArg (Node.relocate (.along shift)) shape)
    have found := fronted.target_own both.aligned' member' shape' free same
    rw [← CompUnit.target?_of_lval both.aligned' both.linked' isSite' shape'] at found
    obtain ⟨_, found⟩ := Option.isSome_iff_exists.mp found
    have here : (settings.select Rulebook.standard).violations linkage' site' = [] := by
      rw [Rulebook.violations, shape', show Node.kind _ = .lval from rfl, settings.rulesFor_lval]
      simp only [flatMap_cons, flatMap_nil, append_nil, Rule.violations, shape']
      change Violations.definedVariable linkage' _ = []
      rw [Violations.definedVariable, found]
    rw [here, eq_comm, map_eq_nil_iff, filter_eq_nil_iff]
    intro report isReport
    rw [Rulebook.violations, shape, show Node.kind _ = .lval from rfl, settings.rulesFor_lval] at isReport
    simp only [flatMap_cons, flatMap_nil, append_nil, Rule.violations, shape, Violations.definedVariable] at isReport
    split at isReport
    · cases isReport
    · obtain rfl := mem_singleton.mp isReport
      simp [CompUnit.keeps, free, same]
  · have follows := both.follows moves isSite isSite' fun reference indices span shape => by
      have other : reference.name ≠ var.name ∨ unit.callables.any (·.name == var.name) = true := by
        by_contra none
        rw [not_or, not_not, Bool.not_eq_true] at none
        exact special ⟨reference, indices, span, shape, none⟩
      rw [fronted.target both.mono moves other, Option.isSome_map]
    have all : ∀ report ∈ (settings.select Rulebook.standard).violations linkage site,
        unit.keeps var.name report = true := by
      intro report isReport
      rw [CompUnit.keeps, Bool.or_eq_true, bne_iff_ne]
      by_contra none
      rw [not_or, not_not, Bool.not_eq_true] at none
      obtain ⟨reference, indices, span, shape, same, -⟩ := settings.lval_of_undefinedVariable isReport none.2
      exact special ⟨reference, indices, span, shape, same, none.1⟩
    rw [Rulebook.violations_follows follows, filter_eq_self.mpr all]

theorem violations_eq :
    Program.violations ⟨unit', linkage'⟩ (settings.select Rulebook.standard) =
      ((Program.violations ⟨unit, linkage⟩ (settings.select Rulebook.standard)).filter (unit.keeps var.name)).map
        (·.relocate (.along shift)) := by
  have own : ((Node.decl decl).sitesUnder [.unit unit']).flatMap
      ((settings.select Rulebook.standard).violations linkage') = [] :=
    flatMap_eq_nil_iff.mpr fun site member => (fronted.quiet member).2 _ linkage'
  have unitKept : ∀ report ∈ (settings.select Rulebook.standard).violations linkage ⟨.unit unit, []⟩,
      unit.keeps var.name report = true := by
    intro report isReport
    rw [CompUnit.keeps, Bool.or_eq_true, bne_iff_ne]
    refine .inr fun missing => ?_
    obtain ⟨_, _, _, shape, -⟩ := settings.lval_of_undefinedVariable isReport missing
    cases shape
  have items := Report.flatMap_relocate (CompUnit.items_move shift unit unit' unit.items)
    fun site member site' member' moves => fronted.violations_at both settings member member' moves
  rw [Program.violations, Program.violations, fronted.sites_eq, flatMap_cons, flatMap_append, own,
    nil_append, items, Rulebook.violations_unit linkage linkage' fronted.titles, Node.sites,
    Node.sitesUnder_eq, flatMap_cons, filter_append, map_append, filter_eq_self.mpr unitKept]
  rfl

end CompUnit.Prefixed

end SysYTools
