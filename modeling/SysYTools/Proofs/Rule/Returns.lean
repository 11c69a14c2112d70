import SysYTools.Proofs.Rule.Following

/-!
One more return statement at the end of a function. A number that is given back uses no name, so names mean what
they meant. If the function had no return statement, the report about that is gone; all other reports move along
with the program.
-/

namespace SysYTools

open List Lexical

variable {site : Node.Site} {type : BaseType} {α : Type}

def Expr.isLiteral : Expr → Bool
  | .intLit _ _ | .floatLit _ _ => true
  | .lval _ _ _ | .call _ _ _ | .unary _ _ _ | .binary _ _ _ _ => false

/-- A function with a statement at its end that gives back a value. -/
def FuncDef.giving (func : FuncDef) (value : Expr) (place : Span) : FuncDef :=
  { func with body := func.body ++ [.stmt (.giveBack (some value) place)] }

/-- A program that has moved to another one, in which a function gives back a number at its end. -/
structure CompUnit.Returned (shift : ℤ ×ₗ ℤ → ℤ ×ₗ ℤ) (unit unit' : CompUnit) (front back : List Item)
    (func func' : FuncDef) (value : Expr) (place : Span) : Prop where
  items : unit.items = front ++ .func func :: back
  items' : unit'.items = front.map (·.relocate (.along shift)) ++ .func func' :: back.map (·.relocate (.along shift))
  gives : func' = (func.relocate (.along shift)).giving value place
  literal : value.isLiteral = true

/-! ## Sites -/

theorem Node.sitesUnder_func (ancestors : List Node) (func : FuncDef) :
    (Node.func func).sitesUnder ancestors = ⟨.func func, ancestors⟩ ::
      ((func.params.map Node.param).flatMap (·.sitesUnder (.func func :: ancestors)) ++
        ⟨.stmt func.block, .func func :: ancestors⟩ ::
          (func.body.map BlockItem.node).flatMap (·.sitesUnder (.stmt func.block :: .func func :: ancestors))) := by
  rw [sitesUnder_eq, children, flatMap_append, flatMap_singleton, sitesUnder_eq _ (.stmt func.block)]
  rfl

namespace FuncDef

variable (func : FuncDef) (value : Expr) (place : Span)

theorem role_giving : (Node.func (func.giving value place)).role = (Node.func func).role := by
  simp [Node.role, FuncDef.giving, FuncDef.variables, BlockItem.variables]

theorem role_block_giving : (Node.stmt (func.giving value place).block).role = (Node.stmt func.block).role := by
  simp [Node.role, FuncDef.giving, FuncDef.block, BlockItem.variables]

theorem idle_giving (ancestors : List Node) {value : Expr} (literal : value.isLiteral = true)
    (member : site ∈ (Node.stmt (.giveBack (some value) place)).sitesUnder ancestors) :
    site.node.Idle ∧ ∀ (settings : CheckSettings) (linkage : Linkage),
      (settings.select Rulebook.standard).violations linkage site = [] := by
  cases value with
  | intLit | floatLit =>
    simp only [Node.sitesUnder_eq, Node.children, Option.map_some, Option.toList_some, flatMap_cons,
      flatMap_nil, append_nil, mem_cons, not_mem_nil, or_false] at member
    rcases member with rfl | rfl
    all_goals
      refine ⟨⟨rfl, rfl⟩, fun settings linkage => ?_⟩
      unfold CheckSettings.select
      split <;> rfl
  | _ => cases literal

theorem returnShape_giving {func : FuncDef} (returns : func.returnType = .value type) :
    Violations.returnShape (func.giving value place) = [] := by
  simp [Violations.returnShape, Violations.lastReturn?, giving, returns]

theorem jumpsInLoops_giving : Violations.jumpsInLoops (func.giving value place) = Violations.jumpsInLoops func := by
  simp only [Violations.jumpsInLoops, giving]
  induction func.body with
  | nil => rfl
  | cons _ _ ih => rw [cons_append, Violations.strayJumpsOfAll, Violations.strayJumpsOfAll, ih]

end FuncDef

namespace CompUnit.Returned

variable {shift : ℤ ×ₗ ℤ → ℤ ×ₗ ℤ} {unit unit' : CompUnit} {front back : List Item} {func func' : FuncDef}
  {value : Expr} {place : Span} (returned : CompUnit.Returned shift unit unit' front back func func' value place)
include returned

theorem functions_map (read : FuncDef → α)
    (blind : ∀ (func : FuncDef) (value : Expr) (place : Span), read (func.giving value place) = read func) :
    unit'.functions.map read = unit.functions.map fun func => read (func.relocate (.along shift)) := by
  have moved : ∀ items : List Item,
      (CompUnit.functions ⟨items.map (·.relocate (.along shift)), place⟩).map read =
        (CompUnit.functions ⟨items, place⟩).map fun func => read (func.relocate (.along shift)) := by
    intro items
    have known := congrArg (List.map read) (@Violations.functions_relocate (.along shift) ⟨items, place⟩)
    rw [map_map] at known
    exact known
  have split : ∀ (unit : CompUnit) (front back : List Item) (func : FuncDef),
      unit.items = front ++ .func func :: back → unit.functions =
        CompUnit.functions ⟨front, place⟩ ++ func :: CompUnit.functions ⟨back, place⟩ := by
    intro unit front back func items
    rw [CompUnit.functions, items, filterMap_append, filterMap_cons]
    rfl
  rw [split unit front back func returned.items, split unit' _ _ _ returned.items', map_append, map_append,
    map_cons, map_cons, moved, moved, returned.gives, blind]

theorem titles : unit'.functions.map (fun func => (func.name, func.nameSpan)) =
    unit.functions.map fun func => (func.name, (Relocation.along shift).place func.nameSpan) :=
  returned.functions_map _ fun _ _ _ => rfl

theorem promises : unit.Promises unit' := by
  rw [CompUnit.Promises, returned.functions_map _ fun _ _ _ => rfl]
  refine map_congr_left fun func _ => ?_
  simp [FuncDef.contract, FuncDef.relocate]

theorem globals : unit'.variables = unit.variables.map (·.relocate (.along shift)) := by
  have moved : ∀ items : List Item, (items.map (·.relocate (.along shift))).flatMap (·.variables) =
      (items.flatMap (·.variables)).map (·.relocate (.along shift)) := by
    intro items
    rw [flatMap_map, map_flatMap]
    refine flatMap_congr fun item _ => ?_
    cases item with
    | decl declaration => exact Node.variables_relocate declaration
    | func => rfl
  rw [CompUnit.variables, CompUnit.variables, returned.items, returned.items', flatMap_append,
    flatMap_append, flatMap_cons, flatMap_cons, map_append, map_append, moved, moved]
  rfl

theorem target (mono : StrictMono shift) {site' : Node.Site} (moves : site.Moves (.along shift) site')
    (reference : Reference) :
    variableTarget unit' site'.ancestors (reference.relocate (.along shift)) =
      (variableTarget unit site.ancestors reference).map (·.relocate (.along shift)) := by
  rw [variableTarget, variableTarget, moves.localTarget mono]
  cases (localScopes site.ancestors).findSome? (visible · reference) with
  | some => rfl
  | none =>
    simp only [Option.map_none]
    rw [show (reference.relocate (.along shift)).name = reference.name from rfl, returned.promises.any_name,
      returned.globals, visible_along mono]
    split <;> rfl

theorem sites_eq : (Node.unit unit).sites = ⟨.unit unit, []⟩ ::
    ((front.map Item.node).flatMap (·.sitesUnder [.unit unit]) ++
      ((Node.func func).sitesUnder [.unit unit] ++ (back.map Item.node).flatMap (·.sitesUnder [.unit unit]))) := by
  rw [Node.sites, Node.sitesUnder_eq, Node.children, returned.items, map_append, flatMap_append,
    map_cons, flatMap_cons]
  rfl

theorem sites_eq' : (Node.unit unit').sites = ⟨.unit unit', []⟩ ::
    ((front.map Item.node).flatMap (fun node => (node.relocate (.along shift)).sitesUnder [.unit unit']) ++
      ((Node.func func').sitesUnder [.unit unit'] ++
        (back.map Item.node).flatMap fun node => (node.relocate (.along shift)).sitesUnder [.unit unit'])) := by
  have moved : ∀ items : List Item,
      ((items.map (·.relocate (.along shift))).map Item.node).flatMap (·.sitesUnder [.unit unit']) =
        (items.map Item.node).flatMap fun node => (node.relocate (.along shift)).sitesUnder [.unit unit'] := by
    intro items
    rw [map_map, flatMap_map, flatMap_map]
    refine flatMap_congr fun item _ => ?_
    rw [Node.relocate_item]
    rfl
  rw [Node.sites, Node.sitesUnder_eq, Node.children, returned.items', map_append, flatMap_append,
    map_cons, flatMap_cons, moved, moved]
  rfl

theorem roles_func : [Node.func func', .unit unit'].map Node.role =
    ([Node.func func, .unit unit].map Node.role).map (·.relocate (.along shift)) := by
  have own := @Node.role_relocate (.along shift) (.func func)
  rw [map_cons, returned.gives, FuncDef.role_giving]
  exact congrArg (fun role => [role, Node.Role.other]) own

theorem roles_block : [Node.stmt func'.block, .func func', .unit unit'].map Node.role =
    ([Node.stmt func.block, .func func, .unit unit].map Node.role).map (·.relocate (.along shift)) := by
  have own := @Node.role_relocate (.along shift) (.stmt func.block)
  have same : Stmt.relocate (.along shift) func.block = (func.relocate (.along shift)).block := by
    simp [FuncDef.block, FuncDef.relocate, Stmt.relocate]
  rw [Node.relocate_stmt, same] at own
  rw [map_cons, returned.roles_func, returned.gives, FuncDef.role_block_giving, own]
  rfl

theorem params_move : List.Forall₂ (Node.Site.Moves (.along shift))
    ((func.params.map Node.param).flatMap (·.sitesUnder [.func func, .unit unit]))
    ((func'.params.map Node.param).flatMap (·.sitesUnder [.func func', .unit unit'])) := by
  have moved := Node.moves_flatMap returned.roles_func (func.params.map Node.param)
  have params : func'.params = func.params.map (·.relocate (.along shift)) := by
    rw [returned.gives]
    rfl
  simpa [params, flatMap_map] using moved

theorem body_moves : List.Forall₂ (Node.Site.Moves (.along shift))
    ((func.body.map BlockItem.node).flatMap (·.sitesUnder [.stmt func.block, .func func, .unit unit]))
    ((func.body.map BlockItem.node).flatMap fun node =>
      (node.relocate (.along shift)).sitesUnder [.stmt func'.block, .func func', .unit unit']) :=
  Node.moves_flatMap returned.roles_block (func.body.map BlockItem.node)

theorem sitesUnder_func' : (Node.func func').sitesUnder [.unit unit'] = ⟨.func func', [.unit unit']⟩ ::
    ((func'.params.map Node.param).flatMap (·.sitesUnder [.func func', .unit unit']) ++
      ⟨.stmt func'.block, [.func func', .unit unit']⟩ ::
        ((func.body.map BlockItem.node).flatMap (fun node =>
            (node.relocate (.along shift)).sitesUnder [.stmt func'.block, .func func', .unit unit']) ++
          (Node.stmt (.giveBack (some value) place)).sitesUnder [.stmt func'.block, .func func', .unit unit'])) := by
  have body : func'.body = func.body.map (·.relocate (.along shift)) ++ [.stmt (.giveBack (some value) place)] := by
    rw [returned.gives]
    rfl
  have moved : (func.body.map (·.relocate (.along shift))).map BlockItem.node =
      (func.body.map BlockItem.node).map (·.relocate (.along shift)) := by
    rw [map_map, map_map]
    exact map_congr_left fun item _ => (Node.relocate_blockItem item).symm
  rw [Node.sitesUnder_func, body, map_append, moved, flatMap_append,
    @flatMap_map _ _ _ (Node.relocate (.along shift)), map_singleton, flatMap_singleton]
  rfl

theorem carried : Node.Site.Carried (.along shift) (Node.unit unit).sites (Node.unit unit').sites := by
  have body := Node.Site.Carried.append (.of_moves returned.body_moves) (.of_idle fun _ member =>
    (FuncDef.idle_giving place [.stmt func'.block, .func func', .unit unit'] returned.literal member).1)
  rw [append_nil] at body
  rw [returned.sites_eq, returned.sites_eq', returned.sitesUnder_func', Node.sitesUnder_func]
  exact .gone ⟨rfl, rfl⟩ (.added ⟨rfl, rfl⟩ (.append (.of_moves (CompUnit.items_move shift unit unit' front))
    (.append (.gone ⟨rfl, rfl⟩ (.added ⟨rfl, rfl⟩ (.append (.of_moves returned.params_move)
      (.gone ⟨rfl, rfl⟩ (.added ⟨rfl, rfl⟩ body))))) (.of_moves (CompUnit.items_move shift unit unit' back)))))

/-! ## Reports -/

variable {linkage linkage' : Linkage} (both : CompUnit.Moves shift unit unit' linkage linkage')
include both

theorem violations_moved {sites sites' : List Node.Site}
    (moved : List.Forall₂ (Node.Site.Moves (.along shift)) sites sites') (within : sites ⊆ (Node.unit unit).sites)
    (within' : sites' ⊆ (Node.unit unit').sites) (rulebook : Rulebook) :
    sites'.flatMap (rulebook.violations linkage') =
      (sites.flatMap (rulebook.violations linkage)).map (·.relocate (.along shift)) := by
  have each : ∀ site ∈ sites, ∀ site' ∈ sites', site.Moves (.along shift) site' →
      rulebook.violations linkage' site' =
        ((rulebook.violations linkage site).filter fun _ => true).map (·.relocate (.along shift)) := by
    intro site member site' member' moves
    have follows := both.follows moves (within member) (within' member') fun reference _ _ _ => by
      rw [returned.target both.mono moves, Option.isSome_map]
    rw [Rulebook.violations_follows follows rulebook, filter_true]
  have all := Report.flatMap_relocate moved each
  rwa [filter_true] at all

end CompUnit.Returned

/-! ## The report about the missing statement -/

namespace CheckSettings

variable (settings : CheckSettings)

theorem rulesFor_func : (settings.select Rulebook.standard).rulesFor .func = [.returnShape, .jumpsInLoops] := by
  unfold select
  split <;> rfl

theorem func_of_missingReturn {linkage : Linkage} {report : Report}
    (member : report ∈ (settings.select Rulebook.standard).violations linkage site)
    (missing : report.problem.code = .missingReturn) : ∃ func, site.node = .func func := by
  obtain ⟨rule, -, member⟩ := mem_flatMap.mp member
  have code := Rule.code_mem_codes member
  rw [missing] at code
  obtain rfl : rule = .returnShape := by
    cases rule with
    | returnShape => rfl
    | _ => simp [Rule.codes] at code
  simp only [Rule.violations] at member
  split at member
  next func shape => exact ⟨func, shape⟩
  · cases member

end CheckSettings

namespace CompUnit

variable (unit : CompUnit) (look : Node.Site → List Report)

/-- The reports about a program itself and its first items. -/
def reportsAhead (front : List Item) : List Report :=
  look ⟨.unit unit, []⟩ ++ ((front.map Item.node).flatMap (·.sitesUnder [.unit unit])).flatMap look

/-- The reports about the jumps and the parts of a function, and about the items behind it. -/
def reportsBehind (func : FuncDef) (back : List Item) : List Report :=
  Violations.jumpsInLoops func ++ (((Node.func func).sitesUnder [.unit unit]).tail.flatMap look ++
    ((back.map Item.node).flatMap (·.sitesUnder [.unit unit])).flatMap look)

end CompUnit

private theorem exists_of_append_split {first rest ahead behind : List α} {item : α}
    (split : first ++ rest = ahead ++ item :: behind) (absent : item ∉ first) :
    ∃ middle, ahead = first ++ middle ∧ rest = middle ++ item :: behind := by
  rcases append_eq_append_iff.mp split with ⟨middle, own, other⟩ | ⟨middle, own, other⟩
  · exact ⟨middle, own, other⟩
  · cases middle with
    | nil => exact ⟨[], by simpa using own.symm, other.symm⟩
    | cons =>
      obtain ⟨rfl, -⟩ := List.cons.inj other
      exact absurd (own ▸ mem_append_right _ mem_cons_self) absent

private theorem exists_of_flatMap_split {β : Type} {read : α → List β} {items : List α} {ahead behind : List β}
    {value : β} (split : items.flatMap read = ahead ++ value :: behind) :
    ∃ front item back first last, items = front ++ item :: back ∧ read item = first ++ value :: last ∧
      ahead = front.flatMap read ++ first ∧ behind = last ++ back.flatMap read := by
  induction items generalizing ahead with
  | nil => simp at split
  | cons item items ih =>
    rw [flatMap_cons] at split
    rcases append_eq_append_iff.mp split with ⟨middle, rfl, rest⟩ | ⟨middle, own, rest⟩
    · obtain ⟨front, other, back, first, last, rfl, found, rfl, rfl⟩ := ih rest
      exact ⟨item :: front, other, back, first, last, rfl, found, by simp, rfl⟩
    · cases middle with
      | nil =>
        obtain ⟨front, other, back, _, last, rfl, found, none, rfl⟩ :=
          ih (show _ = [] ++ value :: behind from rest.symm)
        obtain ⟨clear, rfl⟩ := append_eq_nil_iff.mp none.symm
        refine ⟨item :: front, other, back, [], last, rfl, found, ?_, rfl⟩
        rw [flatMap_cons, own, clear, append_nil, append_nil, append_nil]
      | cons _ tail =>
        obtain ⟨rfl, rfl⟩ := List.cons.inj rest
        exact ⟨[], item, items, ahead, tail, rfl, own, rfl, rfl⟩

section Missing

variable {settings : CheckSettings} {linkage : Linkage} {report : Report}
  (missing : report.problem.code = .missingReturn)
include missing

theorem Node.missingReturn_not_mem {node : Node} (low : node.rank < 4) (ancestors : List Node) :
    report ∉ node.collect ((settings.select Rulebook.standard).violations linkage) ancestors := by
  have only : Node.OnlyAt 4 fun site => ((settings.select Rulebook.standard).violations linkage site).filter
      (·.problem.code == .missingReturn) := by
    intro site other
    rw [filter_eq_nil_iff]
    intro report member found
    obtain ⟨_, shape⟩ := settings.func_of_missingReturn member (beq_iff_eq.mp found)
    exact other (by rw [shape]; rfl)
  have none := only.collect_eq_nil low ancestors
  rw [Node.collect, ← filter_flatMap, filter_eq_nil_iff] at none
  exact fun member => none report member (beq_iff_eq.mpr missing)

theorem Violations.eq_of_missingReturn {func : FuncDef} (member : report ∈ Violations.returnShape func) :
    ∃ type, func.returnType = .value type ∧ Violations.lastReturn? func.body = none ∧
      report = ⟨.missingReturn func.name type.name, func.typeSpan⟩ ∧ Violations.returnShape func = [report] := by
  unfold Violations.returnShape at member ⊢
  split at member
  next type returns none =>
    obtain rfl := mem_singleton.mp member
    exact ⟨type, returns, none, rfl, rfl⟩
  all_goals
    simp only [mem_singleton, not_mem_nil] at member
  all_goals
    subst member
    cases missing

end Missing

theorem Rulebook.violations_func (settings : CheckSettings) (linkage : Linkage) (func : FuncDef)
    (ancestors : List Node) : (settings.select Rulebook.standard).violations linkage ⟨.func func, ancestors⟩ =
      Violations.returnShape func ++ Violations.jumpsInLoops func := by
  rw [Rulebook.violations, show Node.kind (.func func) = .func from rfl, settings.rulesFor_func]
  simp [Rule.violations]

theorem Rulebook.violations_block (settings : CheckSettings) (linkage : Linkage) (func : FuncDef)
    (ancestors : List Node) :
    (settings.select Rulebook.standard).violations linkage ⟨.stmt func.block, ancestors⟩ = [] := by
  unfold CheckSettings.select
  split <;> rfl

theorem CompUnit.exists_function_of_missingReturn {unit : CompUnit} {linkage : Linkage} {settings : CheckSettings}
    {ahead behind : List Report} {report : Report}
    (split : Program.violations ⟨unit, linkage⟩ (settings.select Rulebook.standard) = ahead ++ report :: behind)
    (missing : report.problem.code = .missingReturn) :
    ∃ front func back type, unit.items = front ++ .func func :: back ∧ func.returnType = .value type ∧
      Violations.lastReturn? func.body = none ∧ report = ⟨.missingReturn func.name type.name, func.typeSpan⟩ ∧
      ahead = unit.reportsAhead ((settings.select Rulebook.standard).violations linkage) front ∧
      behind = unit.reportsBehind ((settings.select Rulebook.standard).violations linkage) func back := by
  generalize isLook : (settings.select Rulebook.standard).violations linkage = look at *
  have absent : report ∉ look ⟨.unit unit, []⟩ := by
    intro member
    rw [← isLook] at member
    obtain ⟨func, shape⟩ := settings.func_of_missingReturn member missing
    cases shape
  have reads : ∀ items : List Item, ((items.map Item.node).flatMap (·.sitesUnder [.unit unit])).flatMap look =
      items.flatMap fun item => item.node.collect look [.unit unit] := by
    intro items
    rw [flatMap_assoc, flatMap_map]
    rfl
  rw [Program.violations, isLook, Node.sites, Node.sitesUnder_eq, flatMap_cons] at split
  obtain ⟨_, rfl, rest⟩ := exists_of_append_split split absent
  rw [Node.children, reads] at rest
  obtain ⟨front, item, back, first, _, items, found, rfl, rfl⟩ := exists_of_flatMap_split rest
  have member : report ∈ item.node.collect look [.unit unit] := found ▸ mem_append_right _ mem_cons_self
  cases item with
  | decl =>
    rw [← isLook] at member
    exact absurd member (Node.missingReturn_not_mem missing (by simp [Item.node, Node.rank]) _)
  | func func =>
    have tail : ((Node.func func).sitesUnder [.unit unit]).tail.flatMap look =
        (Node.func func).children.flatMap (Node.collect look [.func func, .unit unit]) := by
      rw [Node.sitesUnder_eq, tail_cons, flatMap_assoc]
      rfl
    have below : report ∉ Violations.jumpsInLoops func ++
        ((Node.func func).sitesUnder [.unit unit]).tail.flatMap look := by
      rw [mem_append, not_or, tail]
      refine ⟨fun member => ?_, fun member => ?_⟩
      · have code := @Violations.code_of_strayJumps (.block func.body func.bodySpan) report member
        rw [missing] at code
        cases code
      · obtain ⟨_, isChild, member⟩ := mem_flatMap.mp member
        rw [← isLook] at member
        exact Node.missingReturn_not_mem missing (Node.rank_lt_of_mem_children isChild (by simp [Node.rank])) _ member
    have own : (Node.func func).collect look [.unit unit] = Violations.returnShape func ++
        (Violations.jumpsInLoops func ++ ((Node.func func).sitesUnder [.unit unit]).tail.flatMap look) := by
      rw [Node.collect_eq, tail, ← isLook, Rulebook.violations_func, append_assoc]
    rw [show Item.node (.func func) = .func func from rfl, own] at found member
    have isShape := (mem_append.mp member).resolve_right below
    obtain ⟨type, returns, none, isReport, shape⟩ := Violations.eq_of_missingReturn missing isShape
    rw [shape, singleton_append] at found
    cases first with
    | cons _ rest =>
      obtain ⟨-, rest⟩ := List.cons.inj found
      exact absurd (rest ▸ mem_append_right _ mem_cons_self) below
    | nil =>
      obtain ⟨-, rfl⟩ := List.cons.inj found
      refine ⟨front, func, back, type, items, returns, none, isReport, ?_, ?_⟩
      · rw [CompUnit.reportsAhead, reads, append_nil]
      · rw [CompUnit.reportsBehind, reads, append_assoc]

namespace CompUnit.Returned

variable {shift : ℤ ×ₗ ℤ → ℤ ×ₗ ℤ} {unit unit' : CompUnit} {front back : List Item} {func func' : FuncDef}
  {value : Expr} {place : Span} (returned : CompUnit.Returned shift unit unit' front back func func' value place)
  {linkage linkage' : Linkage} (both : CompUnit.Moves shift unit unit' linkage linkage')
include returned both

theorem violations_eq (returns : func.returnType = .value type) (settings : CheckSettings) :
    Program.violations ⟨unit', linkage'⟩ (settings.select Rulebook.standard) =
      (unit.reportsAhead ((settings.select Rulebook.standard).violations linkage) front ++
        unit.reportsBehind ((settings.select Rulebook.standard).violations linkage) func back).map
          (·.relocate (.along shift)) := by
  have within : (Node.unit unit).sites = _ := returned.sites_eq
  have within' : (Node.unit unit').sites = _ := returned.sites_eq'
  rw [Node.sitesUnder_func] at within
  rw [returned.sitesUnder_func'] at within'
  have unitPart := Rulebook.violations_unit linkage linkage' returned.titles (settings.select Rulebook.standard)
  have frontPart := returned.violations_moved both (CompUnit.items_move shift unit unit' front)
    (by rw [within]; intro; grind) (by rw [within']; intro; grind) (settings.select Rulebook.standard)
  have paramPart := returned.violations_moved both returned.params_move
    (by rw [within]; intro; grind) (by rw [within']; intro; grind) (settings.select Rulebook.standard)
  have bodyPart := returned.violations_moved both returned.body_moves
    (by rw [within]; intro; grind) (by rw [within']; intro; grind) (settings.select Rulebook.standard)
  have backPart := returned.violations_moved both (CompUnit.items_move shift unit unit' back)
    (by rw [within]; intro; grind) (by rw [within']; intro; grind) (settings.select Rulebook.standard)
  have newPart := flatMap_eq_nil_iff.mpr fun site member => (FuncDef.idle_giving place
    [.stmt func'.block, .func func', .unit unit'] returned.literal member).2 settings linkage'
  have funcPart : (settings.select Rulebook.standard).violations linkage' ⟨.func func', [.unit unit']⟩ =
      (Violations.jumpsInLoops func).map (·.relocate (.along shift)) := by
    have returns' : (func.relocate (.along shift)).returnType = .value type := returns
    rw [Rulebook.violations_func, returned.gives, FuncDef.returnShape_giving _ _ returns', FuncDef.jumpsInLoops_giving,
      Violations.jumpsInLoops_relocate, nil_append]
  rw [Program.violations, within']
  simp only [CompUnit.reportsAhead, CompUnit.reportsBehind, Node.sitesUnder_func, tail_cons, flatMap_cons,
    flatMap_append, map_append, Rulebook.violations_block, nil_append]
  rw [unitPart, frontPart, funcPart, paramPart, bodyPart, newPart, backPart]
  simp only [append_assoc, append_nil]

end CompUnit.Returned

end SysYTools
