import SysYTools.Proofs.Editor.Notice
import SysYTools.Proofs.Scope.Deletion
import SysYTools.Proofs.Tree.Variables

/-!
Variables that are not used. A warning about one names it by the place of its name, and no name of the program means
it. Without it the program breaks no rule that it did not break before.
-/

namespace SysYTools

open List

/-! ## Breaches -/

section Breaches

variable {unit : CompUnit} {name : Span}

theorem BlockItem.lastReturn?_without (items : List BlockItem) :
    Violations.lastReturn? ((items.filter (!·.isDeleted name)).map (·.without name)) = Violations.lastReturn? items := by
  rw [Violations.lastReturn?, Violations.lastReturn?, filterMap_map, filterMap_filter]
  congr 1
  refine filterMap_congr fun item _ => ?_
  cases item with
  | decl declaration => cases deleted : declaration.isDeleted name <;> simp [isDeleted, BlockItem.without, deleted]
  | stmt statement =>
    cases statement with
    | branch _ _ elsePart => cases elsePart <;> rfl
    | _ => rfl

namespace Breach

/-- A breach in the program without a variable that no name means is one in the program. -/
theorem of_without {site : Node.Site} {code : Code} {report : Report} (aligned : unit.Aligned)
    (laid : ∀ node ∈ site.ancestors, node.Laid)
    (unused : ∀ reference indices span target, site.node = .expr (.lval reference indices span) →
      Lexical.variableTarget unit site.ancestors reference = some target → target.isDeleted name = false)
    (broken : Breach (unit.without name) ⟨site.node.without name, site.ancestors.map (·.without name)⟩ code report) :
    Breach unit site code report := by
  obtain ⟨node, ancestors⟩ := site
  generalize isAbove : ancestors.map (·.without name) = above at broken
  cases node with
  | unit | decl | param | initList => cases broken
  | func function =>
    have last := @BlockItem.lastReturn?_without name function.body
    cases broken with
    | duplicateFunction isEarlier same order =>
      rw [Lexical.functions_without] at isEarlier
      obtain ⟨_, isFunction, rfl⟩ := mem_map.mp isEarlier
      exact .duplicateFunction isFunction same order
    | missingReturn returns none =>
      exact .missingReturn returns (BlockItem.noReturn_iff.mpr (last ▸ BlockItem.noReturn_iff.mp none))
    | emptyReturn returns found =>
      exact .emptyReturn returns (BlockItem.lastReturn_iff.mpr (last ▸ BlockItem.lastReturn_iff.mp found))
    | voidReturnValue returns found =>
      exact .voidReturnValue returns (BlockItem.lastReturn_iff.mpr (last ▸ BlockItem.lastReturn_iff.mp found))
  | varDef var =>
    cases broken with
    | duplicateDeclaration isEarlier same order =>
      obtain ⟨parent, _, rfl, isDecl, rfl⟩ := map_eq_cons_iff.mp isAbove
      cases parent with
      | decl declaration =>
        cases isDecl
        exact .duplicateDeclaration (mem_of_mem_filter isEarlier) same order
      | _ => cases isDecl
    | arrayOverflow isArray isList read more => exact .arrayOverflow isArray isList read more
    | scalarList plain isList => exact .scalarList plain isList
    | arrayValue isArray isValue => exact .arrayValue isArray isValue
  | expr expression =>
    cases broken with
    | undefinedVariable missing =>
      rw [← isAbove, Lexical.variableTarget_without aligned laid (unused _ _ _ · rfl), Option.map_eq_none_iff] at missing
      exact .undefinedVariable missing
    | undefinedFunction missing =>
      rw [Lexical.functionTarget_without, Option.map_eq_none_iff] at missing
      exact .undefinedFunction missing
    | argumentCount found differs =>
      rw [Lexical.functionTarget_without] at found
      obtain ⟨_ | _ | func, isFound, same⟩ := Option.map_eq_some_iff.mp found <;> cases same
      exact @argumentCount unit _ _ _ _ func isFound differs
    | voidValue found isVoid used =>
      rw [Lexical.functionTarget_without] at found
      obtain ⟨_ | _ | func, isFound, same⟩ := Option.map_eq_some_iff.mp found <;> cases same
      refine @voidValue unit _ _ _ _ func isFound isVoid fun value span isParent => used value span ?_
      obtain ⟨_, rfl⟩ := head?_eq_some_iff.mp isParent
      rw [← isAbove]
      rfl
  | stmt statement =>
    generalize isStmt : (Node.stmt statement).without name = node at broken
    cases broken with
    | @strayJump jump span _ outside =>
      obtain rfl : statement = jump.stmt span := by
        cases statement with
        | branch _ _ elsePart => cases elsePart <;> cases jump <;> cases isStmt
        | _ => cases jump <;> cases isStmt <;> rfl
      refine .strayJump fun condition body place isLoop => outside condition (body.without name) place ?_
      rw [← isAbove]
      exact mem_map_of_mem isLoop
    | _ => cases isStmt

end Breach

end Breaches

/-! ## Warnings -/

variable {file : String} {text : Text} {unit : CompUnit} {linkage : Linkage} {settings : CheckSettings}

theorem exists_unused_of_diagnostic (parsed : CompUnit.ofText file text = .ok unit) {table : ExplanationTable}
    {analysis : Analysis} (analyzed : analyze file text settings table = .ok analysis) {diagnostic : Diagnostic}
    (member : diagnostic ∈ analysis.diagnostics) (isUnused : diagnostic.code = .unusedVariable) :
    ∃ var linkage message, .varDef var ∈ (Node.unit unit).walk ∧
      diagnostic = { Diagnostic.ofReport ⟨.unusedVariable var.name, var.nameSpan⟩ with message } ∧
      unit.link = .ok linkage ∧ linkage.uses var = false ∧
      analysis.diagnostics = Program.check { unit, linkage } Rulebook.standard settings table := by
  obtain ⟨linkage, linked, rfl⟩ := exists_program_of_analyze parsed analyzed
  obtain ⟨report, isReport, rfl⟩ := mem_map.mp member
  obtain ⟨message, same⟩ := settings.present_eq table (.ofReport report)
  rw [CheckSettings.present_code] at isUnused
  rcases Program.cases_of_violations (CompUnit.aligned_of_ofText parsed) linked isReport with
    ⟨_, -, broken⟩ | ⟨var, isVar, unused, rfl⟩
  · rw [show report.problem.code = .unusedVariable from isUnused] at broken
    cases broken
  · exact ⟨var, linkage, message, isVar, same, linked, unused, rfl⟩

/-- An error of the program without a variable that is not used is an error of the program. -/
theorem Program.error_of_without {linkage' : Linkage} (laid : (Node.unit unit).Laid) (linked : unit.link = .ok linkage)
    {var : VarDef} (unused : linkage.uses var = false) (linked' : (unit.without var.nameSpan).link = .ok linkage')
    {report : Report} (isError : report.problem.severity = .error) (member : report ∈ Program.violations
      { unit := unit.without var.nameSpan, linkage := linkage' } (settings.select Rulebook.standard)) :
    report ∈ Program.violations { unit, linkage } (settings.select Rulebook.standard) := by
  have reported := (Checking.errors_perm_reports laid.aligned.without linked' settings).mem_iff.mp
    (mem_filter.mpr ⟨member, by simp [isError]⟩)
  obtain ⟨_, isSite, isReport⟩ := mem_flatMap.mp reported
  obtain ⟨site, isBefore, rfl⟩ := @Node.exists_of_mem_sitesUnder_without var.nameSpan (.unit unit) [] _ isSite
  have broken : Breach unit site report.problem.code report := by
    refine .of_without laid.aligned (laid.above isBefore) ?_ (Breach.mem_reports.mp ⟨isReport, rfl⟩)
    intro reference indices span target shape found
    rw [← CompUnit.target?_of_lval laid.aligned linked isBefore shape] at found
    exact Linkage.not_isDeleted_of_target? unused found
  have reported := (Checking.errors_perm_reports laid.aligned linked settings).mem_iff.mpr
    (mem_flatMap.mpr ⟨site, isBefore, (Breach.mem_reports.mpr broken).1⟩)
  exact mem_of_mem_filter reported

/-- Without a variable every other one stays. -/
theorem Node.varDef_mem_walk_without (laid : (Node.unit unit).Laid) {var other : VarDef}
    (isPart : .varDef var ∈ (Node.unit unit).walk) (isOther : .varDef other ∈ (Node.unit unit).walk)
    (differs : other ≠ var) : .varDef other ∈ (Node.unit (unit.without var.nameSpan)).walk := by
  have apart : other.nameSpan ≠ var.nameSpan := fun same => differs (Node.varDef.inj
    (laid.eq_of_mem_words isOther isPart (mem_singleton_self _) (mem_singleton.mpr same)))
  obtain ⟨⟨_, above⟩, isSite, rfl⟩ := mem_map.mp isOther
  refine mem_map_of_mem (Node.mem_sitesUnder_without isSite (by simpa [Node.isDeleted] using apart) ?_).2
  intro around isAbove same
  rcases Node.mem_walk_of_mem_ancestors isSite isAbove with none | ⟨-, under⟩
  · cases none
  · obtain rfl : other = around := mem_singleton.mp (Node.mem_walk_varDef.mp under)
    exact apart same

/-- A warning about an unused variable is safe to act on. The program without the variable can be linked, and each
name outside of the variable means there what it meant before: the same declaration, or none. -/
theorem analyze_unused_deletable (parsed : CompUnit.ofText file text = .ok unit) {table : ExplanationTable}
    {analysis : Analysis} (analyzed : analyze file text settings table = .ok analysis) {diagnostic : Diagnostic}
    (member : diagnostic ∈ analysis.diagnostics) (isUnused : diagnostic.code = .unusedVariable) :
    ∃ var linkage linkage', .varDef var ∈ (Node.unit unit).walk ∧ diagnostic.span? = some var.nameSpan ∧
      (∀ other, .varDef other ∈ (Node.unit unit).walk → other.nameSpan = var.nameSpan → other = var) ∧
      unit.link = .ok linkage ∧ (unit.without var.nameSpan).link = .ok linkage' ∧
      ∀ site ∈ (Node.unit unit).sites, ∀ reference, site.node.use? = some reference → .varDef var ∉ site.ancestors →
          (∃ site' ∈ (Node.unit (unit.without var.nameSpan)).sites, site'.node = site.node) ∧
          linkage'.target? reference = (linkage.target? reference).map (·.without var.nameSpan) := by
  obtain ⟨_, source⟩ := CompUnit.exists_source parsed
  have laid := source.laid
  obtain ⟨var, linkage, _, isPart, rfl, linked, unused, -⟩ :=
    exists_unused_of_diagnostic parsed analyzed member isUnused
  have only : ∀ other, .varDef other ∈ (Node.unit unit).walk → other.nameSpan = var.nameSpan → other = var := by
    intro other isOther same
    have one := laid.eq_of_mem_words isOther isPart (mem_singleton_self other.nameSpan) (mem_singleton.mpr same)
    exact Node.varDef.inj one
  obtain ⟨linkage', linked'⟩ := @CompUnit.exists_link_without var.nameSpan unit linkage laid.aligned linked
  refine ⟨var, linkage, linkage', isPart, rfl, only, linked, linked', ?_⟩
  intro use isSite' reference isUse outside
  refine CompUnit.target?_without laid linked unused linked' isSite' isUse fun other isAbove same => ?_
  rcases Node.mem_walk_of_mem_ancestors isSite' isAbove with none | ⟨isPart', -⟩
  · cases none
  · exact outside (only other isPart' same ▸ isAbove)

private def hiddenAgain : Text := "int a;void f()\x7ba;int a;int a;\x7d".toList

/-- Without the first local variable the second one of its name counts, yet the use in front of both still means the
global one. -/
theorem analyze_unused_deletable_again :
    ∃ (unit : CompUnit) (analysis : Analysis) (diagnostic : Diagnostic) (var : VarDef) (linkage' : Linkage),
      CompUnit.ofText "t.sy" hiddenAgain = .ok unit ∧
      analyze "t.sy" hiddenAgain {} ⟨[]⟩ = .ok analysis ∧ diagnostic ∈ analysis.diagnostics ∧
      diagnostic.code = .unusedVariable ∧ diagnostic.span? = some ⟨"t.sy", 1, 22, 1, 22⟩ ∧
      diagnostic.span? = some var.nameSpan ∧ (unit.without var.nameSpan).link = .ok linkage' ∧
      ∃ site ∈ (Node.unit unit).sites, ∃ reference, site.node.use? = some reference ∧
        reference.span = ⟨"t.sy", 1, 16, 1, 16⟩ ∧
        (linkage'.target? reference).map (·.nameSpan) = some ⟨"t.sy", 1, 5, 1, 5⟩ := by
  have chars : hiddenAgain = _ := String.toList_ofList
  have warned : (analyze "t.sy" hiddenAgain {} ⟨[]⟩).toOption.map (fun analysis =>
      analysis.diagnostics.map fun diagnostic => (diagnostic.code, diagnostic.span?)) =
      some [(.unusedVariable, some ⟨"t.sy", 1, 22, 1, 22⟩), (.unusedVariable, some ⟨"t.sy", 1, 28, 1, 28⟩)] := by
    rw [chars]
    decide +kernel
  have uses : ((CompUnit.ofText "t.sy" hiddenAgain).toOption.bind fun unit => unit.link.toOption.map fun linkage =>
      (Node.unit unit).sites.filterMap fun site => site.node.use?.map fun reference =>
        (reference.span, (linkage.target? reference).map (·.nameSpan), site.ancestors.all (·.kind != .varDef))) =
      some [(⟨"t.sy", 1, 16, 1, 16⟩, some ⟨"t.sy", 1, 5, 1, 5⟩, true)] := by
    rw [chars]
    decide +kernel
  obtain ⟨analysis, analyzed, warned⟩ := Except.exists_of_toOption warned
  obtain ⟨unit, parsed, uses⟩ := Option.bind_eq_some_iff.mp uses
  obtain ⟨linkage, linked, uses⟩ := Except.exists_of_toOption uses
  replace parsed := Except.eq_ok_of_toOption parsed
  obtain ⟨diagnostic, member, facts⟩ := mem_map.mp (warned ▸ mem_cons_self)
  obtain ⟨isUnused, isSpan⟩ := Prod.mk.inj facts
  obtain ⟨site, isSite, facts⟩ := mem_filterMap.mp (uses ▸ mem_cons_self)
  obtain ⟨reference, isUse, facts⟩ := Option.map_eq_some_iff.mp facts
  obtain ⟨place, meaning, apart⟩ : reference.span = _ ∧ _ ∧ _ := by simpa only [Prod.mk.injEq] using facts
  obtain ⟨var, linkage₁, linkage', _, isVar, -, linked₁, linked', same⟩ :=
    analyze_unused_deletable parsed analyzed member isUnused
  obtain rfl : linkage = linkage₁ := Except.ok.inj (linked.symm.trans linked₁)
  have outside : .varDef var ∉ site.ancestors := fun isAbove => by
    simpa [Node.kind] using all_eq_true.mp apart _ isAbove
  refine ⟨unit, analysis, diagnostic, var, linkage', parsed, analyzed, member, isUnused, isSpan, isVar, linked',
    site, isSite, reference, isUse, place, ?_⟩
  rw [(same site isSite reference isUse outside).2, Option.map_map, ← meaning]
  exact congrArg (Option.map · _) (funext Declaration.nameSpan_without)

end SysYTools
