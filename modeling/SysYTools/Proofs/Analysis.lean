import SysYTools.Proofs.Rule.Checking

/-!
The analysis of a text that can be read. It ends when no dimension in the text is too long, and its errors are
the breaches of the static rules, one for each. The settings decide about warnings and the form of messages,
and about no error.
-/

namespace SysYTools

open List

variable {code : Code} {linkage : Linkage} {report : Report} {site : Node.Site}

variable {file : String} {text : Text} {unit : CompUnit} {settings : CheckSettings} {table : ExplanationTable}

section

variable (settings : CheckSettings) (table : ExplanationTable) (diagnostic : Diagnostic)

@[simp] theorem CheckSettings.present_severity : (settings.present table diagnostic).severity = diagnostic.severity := by
  unfold CheckSettings.present
  split <;> rfl

@[simp] theorem CheckSettings.present_code : (settings.present table diagnostic).code = diagnostic.code := by
  unfold CheckSettings.present
  split <;> rfl

@[simp] theorem CheckSettings.present_span? : (settings.present table diagnostic).span? = diagnostic.span? := by
  unfold CheckSettings.present
  split <;> rfl

end

theorem analyze_of_link (parsed : CompUnit.ofText file text = .ok unit) (linked : unit.link = .ok linkage) :
    analyze file text settings table =
      .ok { program := some { unit, linkage }
            diagnostics := Program.check { unit, linkage } Rulebook.standard settings table } := by
  simp only [analyze, parsed, Program.ofUnit, linked]
  rfl

theorem CheckSettings.present_eq (settings : CheckSettings) (table : ExplanationTable) (diagnostic : Diagnostic) :
    ∃ message, settings.present table diagnostic = { diagnostic with message } := by
  unfold present
  split
  · exact ⟨_, rfl⟩
  · exact ⟨diagnostic.message, rfl⟩

theorem Breach.severity_eq (breach : Breach unit site code report) : report.problem.severity = .error := by
  cases breach <;> rfl

theorem Checking.unusedAt_cases (member : report ∈ unusedAt settings linkage site) :
    ∃ decl, ∃ var ∈ decl.defs, site.node = .decl decl ∧ linkage.uses var = false ∧
      report = ⟨.unusedVariable var.name, var.nameSpan⟩ := by
  obtain ⟨_, _⟩ := site
  simp only [unusedAt] at member
  split at member
  · simp only [Rule.violations] at member
    split at member
    next declares =>
      split at member
      · obtain ⟨var, selected, rfl⟩ := mem_map.mp member
        obtain ⟨isVar, free⟩ := mem_filter.mp selected
        exact ⟨declares, var, isVar, rfl, by simpa using free, rfl⟩
      · cases member
    · cases member
  · cases member

theorem Checking.errors_perm_reports (aligned : unit.Aligned)
    (linked : unit.link = .ok linkage) (settings : CheckSettings) :
    ((Program.violations { unit, linkage } (settings.select Rulebook.standard)).filter
      (·.problem.severity == .error)).Perm ((Node.unit unit).sites.flatMap (Breach.reports unit)) := by
  have pieces : (Program.violations { unit, linkage } (settings.select Rulebook.standard)).Perm
      ((Node.unit unit).sites.flatMap ((Rulebook.standard.without .usedLocals).violations linkage) ++
        (Node.unit unit).sites.flatMap (unusedAt settings linkage)) := by
    have selected : (settings.select Rulebook.standard).violations linkage =
        fun site => (Rulebook.standard.without .usedLocals).violations linkage site ++
          unusedAt settings linkage site :=
      funext (select_violations settings linkage)
    rw [Program.violations, selected]
    exact (flatMap_append_perm _ _ _).symm
  have errors : ∀ report ∈ (Node.unit unit).sites.flatMap (Breach.reports unit),
      report.problem.severity == .error := by
    intro report member
    obtain ⟨site, -, found⟩ := mem_flatMap.mp member
    rw [(Breach.mem_reports.mp ⟨found, rfl⟩).severity_eq]
    rfl
  have warnings : ∀ report ∈ (Node.unit unit).sites.flatMap (unusedAt settings linkage),
      ¬ report.problem.severity == .error := by
    intro report member
    obtain ⟨_, -, found⟩ := mem_flatMap.mp member
    obtain ⟨_, _, -, -, -, rfl⟩ := unusedAt_cases found
    nofun
  refine (pieces.filter _).trans ?_
  rw [filter_append, filter_eq_nil_iff.mpr warnings, append_nil]
  refine ((violations_perm_reports aligned linked).filter _).trans ?_
  rw [filter_eq_self.mpr errors]

/-- The breaches of a program with their places, in the order of the places. -/
def CompUnit.breaches (unit : CompUnit) : List (Node.Site × Code × Report) :=
  (Node.unit unit).sites.flatMap fun site =>
    (Breach.reports unit site).map fun report => (site, report.problem.code, report)

theorem CompUnit.mem_breaches :
    (site, code, report) ∈ unit.breaches ↔ site ∈ (Node.unit unit).sites ∧ Breach unit site code report := by
  rw [← Breach.mem_reports, breaches, mem_flatMap]
  constructor
  · rintro ⟨_, isSite, member⟩
    obtain ⟨_, isReport, same⟩ := mem_map.mp member
    cases same
    exact ⟨isSite, isReport, rfl⟩
  · rintro ⟨isSite, isReport, rfl⟩
    exact ⟨site, isSite, mem_map.mpr ⟨report, isReport, rfl⟩⟩

theorem CompUnit.breaches_nodup (aligned : unit.Aligned) : unit.breaches.Nodup := by
  refine nodup_flatMap.mpr ⟨fun site _ => ?_, ?_⟩
  · exact Breach.reports_nodup.map fun left right same => (Prod.mk.inj (Prod.mk.inj same).2).2
  · refine aligned.sites_nodup.imp fun {left right} differ breach inLeft inRight => ?_
    obtain ⟨_, -, rfl⟩ := mem_map.mp inLeft
    obtain ⟨_, -, same⟩ := mem_map.mp inRight
    exact differ (Prod.mk.inj same).1.symm

theorem CompUnit.map_report_breaches :
    unit.breaches.map (·.2.2) = (Node.unit unit).sites.flatMap (Breach.reports unit) := by
  simp [breaches, map_flatMap, Function.comp_def]

/-- The errors of an analysis are the breaches of the static rules, one for each, with the code of the rule
and the place of the text at fault. -/
theorem analyze_reports_breaches (parsed : CompUnit.ofText file text = .ok unit)
    (short : ∀ part ∈ (Node.unit unit).walk, part.hasOverlongDim = false) (settings : CheckSettings)
    (table : ExplanationTable) :
    ∃ (analysis : Analysis) (found : List (Node.Site × Code × Report)),
      analyze file text settings table = .ok analysis ∧ found.Nodup ∧
      (∀ site code report, (site, code, report) ∈ found ↔
        site ∈ (Node.unit unit).sites ∧ Breach unit site code report) ∧
      (analysis.diagnostics.filter (·.severity == .error)).Perm
        (found.map fun breach => settings.present table (.ofReport breach.2.2)) ∧
      ((analysis.diagnostics.filter (·.severity == .error)).map fun error => (error.code, error.span?)).Perm
        (found.map fun breach => (breach.2.1, some breach.2.2.span)) := by
  have aligned := CompUnit.aligned_of_ofText parsed
  obtain ⟨linkage, linked⟩ := (CompUnit.link_isOk_iff aligned).mpr short
  have errors : ((Program.check { unit, linkage } Rulebook.standard settings table).filter
      (·.severity == .error)).Perm
        (unit.breaches.map fun breach => settings.present table (.ofReport breach.2.2)) := by
    have perm := (Checking.errors_perm_reports aligned linked settings).map
      fun report => settings.present table (.ofReport report)
    rw [← CompUnit.map_report_breaches, map_map] at perm
    rw [Program.check, filter_map]
    simpa only [Function.comp_def, CheckSettings.present_severity, Diagnostic.ofReport] using perm
  refine ⟨_, unit.breaches, analyze_of_link parsed linked, CompUnit.breaches_nodup aligned,
    fun site code report => CompUnit.mem_breaches, errors, ?_⟩
  refine (errors.map _).trans ?_
  rw [map_map]
  refine .of_eq (map_congr_left fun breach member => ?_)
  obtain ⟨_, _, _⟩ := breach
  have sameCode := (CompUnit.mem_breaches.mp member).2.code_eq
  simp only [Function.comp_apply, CheckSettings.present_code, CheckSettings.present_span?]
  rw [← sameCode]
  rfl

/-! A call means the first function of its name, so a later one of the same name does not make it a value. -/

private def oneLine (first last : Int) : Span := ⟨"t.sy", 1, first, 1, last⟩

private def repeatedCall : Expr := .call ⟨"v", oneLine 26 26⟩ [] (oneLine 26 28)

private def repeatedFirst : FuncDef :=
  { returnType := .void, name := "v", params := [], body := [], bodySpan := oneLine 9 10
    span := oneLine 1 10, nameSpan := oneLine 6 6, typeSpan := oneLine 1 4 }

private def repeatedSecond : FuncDef :=
  { returnType := .value .int, name := "v", params := []
    body := [.stmt (.giveBack (some repeatedCall) (oneLine 19 29))], bodySpan := oneLine 18 30
    span := oneLine 11 30, nameSpan := oneLine 15 15, typeSpan := oneLine 11 13 }

private def repeatedUnit : CompUnit :=
  { items := [.func repeatedFirst, .func repeatedSecond], span := oneLine 1 30 }

theorem analyze_reports_first_function :
    CompUnit.ofText "t.sy" "void v(){}int v(){return v();}".toList = .ok repeatedUnit ∧
      (∀ part ∈ (Node.unit repeatedUnit).walk, part.hasOverlongDim = false) ∧
      ∃ analysis, analyze "t.sy" "void v(){}int v(){return v();}".toList {} ⟨[]⟩ = .ok analysis ∧
        ∃ errors : List (Code × Option Span),
          errors = ((analysis.diagnostics.filter (·.severity == .error)).map fun error => (error.code, error.span?)) ∧
          (.duplicateFunction, some (oneLine 15 15)) ∈ errors ∧ (.voidAssignment, some (oneLine 26 28)) ∈ errors := by
  have parsed : CompUnit.ofText "t.sy" "void v(){}int v(){return v();}".toList = .ok repeatedUnit := by
    rw [String.toList_ofList]
    cbv
  have short : ∀ part ∈ (Node.unit repeatedUnit).walk, part.hasOverlongDim = false := by
    simp [Node.walk_eq, Node.children, repeatedUnit, repeatedFirst, repeatedSecond, repeatedCall,
      FuncDef.block, Item.node, BlockItem.node, Node.hasOverlongDim]
  obtain ⟨analysis, _, analyzed, -, complete, -, errors⟩ := analyze_reports_breaches parsed short {} ⟨[]⟩
  have duplicate := (complete ⟨.func repeatedSecond, [.unit repeatedUnit]⟩ _ _).mpr
    ⟨by simp [Node.sites, Node.sitesUnder_eq, Node.children, repeatedUnit, repeatedFirst, repeatedSecond,
        repeatedCall, FuncDef.block, Item.node, BlockItem.node],
      @Breach.duplicateFunction repeatedUnit repeatedSecond repeatedFirst _ mem_cons_self rfl (by decide)⟩
  have void := (complete ⟨.expr repeatedCall, [.stmt (.giveBack (some repeatedCall) (oneLine 19 29)),
      .stmt repeatedSecond.block, .func repeatedSecond, .unit repeatedUnit]⟩ _ _).mpr
    ⟨by simp [Node.sites, Node.sitesUnder_eq, Node.children, repeatedUnit, repeatedFirst, repeatedSecond,
        repeatedCall, FuncDef.block, Item.node, BlockItem.node],
      @Breach.voidValue repeatedUnit _ _ _ _ repeatedFirst (by cbv) rfl
        (by simp [Node.Site.IsUsed, Node.Site.parent?])⟩
  refine ⟨parsed, short, analysis, analyzed, _, rfl, ?_, ?_⟩
  · exact errors.mem_iff.mpr (mem_map.mpr ⟨_, duplicate, rfl⟩)
  · exact errors.mem_iff.mpr (mem_map.mpr ⟨_, void, rfl⟩)

end SysYTools
