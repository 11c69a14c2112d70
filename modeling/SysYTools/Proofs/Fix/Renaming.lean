import SysYTools.Fix.Names
import SysYTools.Proofs.Editor.Notice
import SysYTools.Proofs.Fix.Filling
import SysYTools.Proofs.Fix.Marks
import SysYTools.Proofs.Rule.Following

/-!
The fixes that rename a variable or a function that is declared twice. They append a suffix to the name that is
reported, and they do not look at the other names, so the new name may be a repeated one again.
-/

namespace SysYTools

open List Lexis Grammar

variable {name : Reference} {part : Node}

/-! ## Repeated keys -/

namespace Violations

variable {α : Type} {key : α → String} {front back items : List α} {item renamed : α}

theorem length_repeated_go (key : α → String) (seen : List String) (items : List α) :
    (repeated.go key seen items).length + ((items.map key).toFinset \ seen.toFinset).card = items.length := by
  induction items generalizing seen with
  | nil => simp [repeated.go]
  | cons item _ ih =>
    rw [repeated.go, map_cons, toFinset_cons]
    by_cases known : key item ∈ seen
    · rw [if_pos (by simpa using known), Finset.insert_sdiff_of_mem _ (by simpa using known), length_cons,
        length_cons, ← ih seen]
      omega
    · have next := ih (key item :: seen)
      rw [toFinset_cons, Finset.sdiff_insert, ← Finset.erase_insert_eq_erase] at next
      rw [if_neg (by simpa using known), Finset.insert_sdiff_of_notMem _ (by simpa using known),
        ← Finset.card_erase_add_one (Finset.mem_insert_self (key item) _), length_cons, ← next]
      omega

theorem length_repeated (key : α → String) (items : List α) :
    (repeated key items).length + (items.map key).toFinset.card = items.length := by
  have counted := length_repeated_go key [] items
  rwa [toFinset_nil, Finset.sdiff_empty] at counted

theorem length_repeated_rekey (again : key item ∈ front.map key) :
    (repeated key (front ++ renamed :: back)).length +
        (if key renamed ∈ (front ++ item :: back).map key then 0 else 1) =
      (repeated key (front ++ item :: back)).length := by
  have old := length_repeated key (front ++ item :: back)
  have new := length_repeated key (front ++ renamed :: back)
  have keys : ((front ++ renamed :: back).map key).toFinset =
      insert (key renamed) ((front ++ item :: back).map key).toFinset := by
    ext word
    simp only [map_append, map_cons, mem_toFinset, mem_append, mem_cons, Finset.mem_insert]
    grind
  rw [keys] at new
  simp only [length_append, length_cons] at old new
  split
  next used =>
    rw [Finset.insert_eq_of_mem (mem_toFinset.mpr used)] at new
    omega
  next unused =>
    rw [Finset.card_insert_of_notMem (mt mem_toFinset.mp unused)] at new
    omega

theorem exists_split_of_mem_repeated_go {seen : List String} (member : item ∈ repeated.go key seen items) :
    ∃ front back, items = front ++ item :: back ∧ (key item ∈ seen ∨ key item ∈ front.map key) := by
  induction items generalizing seen with
  | nil => cases member
  | cons first rest ih =>
    rw [repeated.go] at member
    split at member
    next known =>
      rcases mem_cons.mp member with rfl | later
      · exact ⟨[], rest, rfl, .inl (by simpa using known)⟩
      · obtain ⟨front, back, rfl, again⟩ := ih later
        exact ⟨first :: front, back, rfl, again.imp_right (mem_cons_of_mem _)⟩
    · obtain ⟨front, back, rfl, again⟩ := ih member
      refine ⟨first :: front, back, rfl, ?_⟩
      rw [mem_cons] at again
      rw [map_cons, mem_cons]
      tauto

theorem exists_split_of_mem_repeated (member : item ∈ repeated key items) :
    ∃ front back, items = front ++ item :: back ∧ key item ∈ front.map key := by
  obtain ⟨front, back, split, again⟩ := exists_split_of_mem_repeated_go member
  exact ⟨front, back, split, again.resolve_left not_mem_nil⟩

end Violations

/-! ## Reports of repeated names -/

section Reports

variable {file : String} {text : Text} {unit : CompUnit} {analysis : Analysis} {diagnostic : Diagnostic}
  {settings : CheckSettings} {table : ExplanationTable}

section

variable (parsed : CompUnit.ofText file text = .ok unit) (analyzed : analyze file text settings table = .ok analysis)
  (member : diagnostic ∈ analysis.diagnostics)
include parsed analyzed member

theorem exists_violation_of_diagnostic :
    ∃ message report linkage rule site, diagnostic = { Diagnostic.ofReport report with message } ∧
      site ∈ (Node.unit unit).sites ∧ report ∈ Rule.violations linkage site rule ∧ diagnostic.code ∈ rule.codes := by
  obtain ⟨linkage, linked, rfl⟩ := exists_program_of_analyze parsed analyzed
  obtain ⟨report, isReport, rfl⟩ := mem_map.mp member
  obtain ⟨message, same⟩ := settings.present_eq table (.ofReport report)
  obtain ⟨site, isSite, isReport⟩ := mem_flatMap.mp isReport
  obtain ⟨rule, _, isReport⟩ := mem_flatMap.mp isReport
  refine ⟨message, report, linkage, rule, site, same, isSite, isReport, ?_⟩
  rw [same]
  exact Rule.code_mem_codes isReport

theorem exists_decl_of_duplicate
    (duplicate : diagnostic.code = .duplicateDeclaration) :
    ∃ message decl front var back,
      diagnostic = { Diagnostic.ofReport ⟨.duplicateDeclaration var.name, var.nameSpan⟩ with message } ∧
      .decl decl ∈ (Node.unit unit).walk ∧ decl.defs = front ++ var :: back ∧ var.name ∈ front.map VarDef.name := by
  obtain ⟨message, _, _, rule, _, same, isSite, isReport, code⟩ :=
    exists_violation_of_diagnostic parsed analyzed member
  rw [duplicate] at code
  obtain rfl : rule = .uniqueNames := by
    cases rule with
    | uniqueNames => rfl
    | _ => simp [Rule.codes] at code
  simp only [Rule.violations] at isReport
  split at isReport
  next decl shape =>
    obtain ⟨var, isVar, rfl⟩ := mem_map.mp isReport
    obtain ⟨front, back, split, again⟩ := Violations.exists_split_of_mem_repeated isVar
    refine ⟨message, decl, front, var, back, same, ?_, split, again⟩
    rw [← shape]
    exact mem_map_of_mem isSite
  · cases isReport

end

theorem CompUnit.func_mem_walk {func : FuncDef} (isFunc : func ∈ unit.functions) :
    Node.func func ∈ (Node.unit unit).walk := by
  obtain ⟨item, isItem, same⟩ := mem_filterMap.mp isFunc
  cases item <;> cases same
  exact Node.mem_walk_of_child (mem_map_of_mem isItem) (Node.self_mem_walk _)

theorem exists_function_of_duplicate (parsed : CompUnit.ofText file text = .ok unit)
    (analyzed : analyze file text settings table = .ok analysis) (member : diagnostic ∈ analysis.diagnostics)
    (duplicate : diagnostic.code = .duplicateFunction) :
    ∃ message front func back,
      diagnostic = { Diagnostic.ofReport ⟨.duplicateFunction func.name, func.nameSpan⟩ with message } ∧
      unit.functions = front ++ func :: back ∧ func.name ∈ front.map FuncDef.name := by
  obtain ⟨message, _, _, rule, site, same, isSite, isReport, code⟩ :=
    exists_violation_of_diagnostic parsed analyzed member
  rw [duplicate] at code
  obtain rfl : rule = .uniqueFunctions := by
    cases rule with
    | uniqueFunctions => rfl
    | _ => simp [Rule.codes] at code
  simp only [Rule.violations] at isReport
  split at isReport
  next whole shape =>
    obtain ⟨func, isFunc, rfl⟩ := mem_map.mp isReport
    obtain ⟨front, back, split, again⟩ := Violations.exists_split_of_mem_repeated isFunc
    have isPart : site.node ∈ (Node.unit unit).walk := mem_map_of_mem isSite
    obtain ⟨_, source⟩ := CompUnit.exists_source parsed
    rw [shape] at isPart
    rcases source.derived.of_mem_walk isPart with isUnit | ⟨_, _, derived⟩
    · cases isUnit
      exact ⟨message, front, func, back, same, split, again⟩
    · cases derived
  · cases isReport

end Reports

/-! ## The edit -/

theorem Request.name?_of_data (request : Request) {field name : String} {rest : List (String × Value)}
    (data : request.notice.data = .record ((field, .text name) :: rest)) (nonempty : name ≠ "")
    (read : Text.Reader Text) : request.name? field read = some name := by
  simp [Request.name?, Request.given, Request.payload, data, Value.field?, Value.isGiven, Value.display, nonempty]

namespace Fix

variable {file : String} {text : Text} {unit : CompUnit}

theorem exists_name_cut (parsed : CompUnit.ofText file text = .ok unit)
    (isPart : part ∈ (Node.unit unit).walk) (isName : name ∈ part.names) {range : Range}
    (ranged : name.span.toRange = .ok range) :
    name.name ≠ "" ∧ ∃ before after, text = before ++ name.name.toList ++ after ∧
      ∀ new, Edit.applyAll text [⟨range, new⟩] = before ++ new ++ after := by
  obtain ⟨_, source⟩ := CompUnit.exists_source parsed
  obtain ⟨token, isToken, rfl⟩ := source.written part isPart name isName
  obtain ⟨before, value, stands⟩ := source.stands token isToken
  obtain ⟨after, split⟩ := stands.within
  have start := (stands.toRange_eq_ok_iff.mp ranged).1.1
  have stop := stop_eq stands ranged
  obtain ⟨_, _⟩ := range
  cases start
  cases stop
  dsimp only
  rw [stands.value_eq]
  refine ⟨fun empty => stands.isToken.ne_nil ?_, before, after, split.symm, fun new => ?_⟩
  · rw [← stands.value_eq, empty]
    rfl
  · rw [← split]
    exact Edit.applyAll_replace before value new after

/-- A fix appends a suffix to a name in a document and leaves the rest as it is. -/
def Suffixes (resolver : Resolver) (request : Request) (name : String) : Prop :=
  ∃ action edits before after, resolver request = .ok (some action) ∧
    action.effect = .edits request.document.uri edits ∧
    request.document.text = before ++ name.toList ++ after ∧
    Edit.applyAll request.document.text edits = before ++ (name.toList ++ "_new".toList) ++ after

theorem suffixes_of_name (request : Request) (parsed : CompUnit.ofText file request.document.text = .ok unit)
    (isPart : part ∈ (Node.unit unit).walk) (isName : name ∈ part.names)
    (ranged : name.span.toRange = .ok request.range) {resolver : Resolver} (resolves : name.name ≠ "" →
      ∃ title, resolver request = .ok (some (request.replace title request.range s!"{name.name}_new"))) :
    Suffixes resolver request name.name := by
  obtain ⟨nonempty, before, after, split, replaced⟩ := exists_name_cut parsed isPart isName ranged
  obtain ⟨_, resolved⟩ := resolves nonempty
  refine ⟨_, _, before, after, resolved, rfl, split, ?_⟩
  rw [replaced]
  simp [toString]

/-- Renaming a repeated variable or function appends a suffix to it. Its declaration, or its program, has one repeated
name less then if the new name is not in use there, and else as many as before. -/
theorem rename_settles_unused (parsed : CompUnit.ofText file text = .ok unit) {settings : CheckSettings}
    {table : ExplanationTable} {analysis : Analysis} (analyzed : analyze file text settings table = .ok analysis)
    {diagnostic : Diagnostic} (member : diagnostic ∈ analysis.diagnostics) {source : String} {notice : Notice}
    (shown : Notice.ofDiagnostic (.text source) diagnostic = .ok notice) (uri : String) (number : Nat) :
    (diagnostic.code = .duplicateDeclaration → ∃ decl front var back,
      .decl decl ∈ (Node.unit unit).walk ∧ decl.defs = front ++ var :: back ∧ var.name ∈ front.map VarDef.name ∧
      Suffixes renameVariable { document := { uri, text }, notice, number } var.name ∧
      ∀ renamed : VarDef, renamed.name = var.name ++ "_new" →
        (Violations.uniqueNames { decl with defs := front ++ renamed :: back }).length +
            (if var.name ++ "_new" ∈ decl.defs.map VarDef.name then 0 else 1) =
          (Violations.uniqueNames decl).length) ∧
    (diagnostic.code = .duplicateFunction → ∃ front func back,
      unit.functions = front ++ func :: back ∧ func.name ∈ front.map FuncDef.name ∧
      Suffixes renameFunction { document := { uri, text }, notice, number } func.name ∧
      ∀ (unit' : CompUnit) (renamed : FuncDef), renamed.name = func.name ++ "_new" →
        unit'.functions = front ++ renamed :: back →
        (Violations.uniqueFunctions unit').length +
            (if func.name ++ "_new" ∈ unit.functions.map FuncDef.name then 0 else 1) =
          (Violations.uniqueFunctions unit).length) := by
  constructor
  · intro duplicate
    obtain ⟨message, decl, front, var, back, rfl, isDecl, split, again⟩ :=
      exists_decl_of_duplicate parsed analyzed member duplicate
    obtain ⟨ranged, data⟩ := notice_of_report shown
    refine ⟨decl, front, var, back, isDecl, split, again, ?_, fun renamed named => ?_⟩
    · have isVar : .varDef var ∈ (Node.unit unit).walk :=
        Node.mem_walk_trans isDecl (Node.mem_walk_of_child
          (mem_map_of_mem (split ▸ mem_append_right front mem_cons_self)) (Node.self_mem_walk _))
      refine suffixes_of_name { document := { uri, text }, notice, number } parsed isVar (mem_singleton_self _)
        ranged fun nonempty => ?_
      exact ⟨_, by rw [renameVariable, variableName?, Request.name?_of_data _ data nonempty, Option.map_some]⟩
    · rw [Violations.uniqueNames, Violations.uniqueNames, length_map, length_map, split, ← named]
      exact Violations.length_repeated_rekey again
  · intro duplicate
    obtain ⟨_, front, func, back, rfl, split, again⟩ := exists_function_of_duplicate parsed analyzed member duplicate
    obtain ⟨ranged, data⟩ := notice_of_report shown
    refine ⟨front, func, back, split, again, ?_, fun unit' renamed named split' => ?_⟩
    · have isFunc : .func func ∈ (Node.unit unit).walk :=
        CompUnit.func_mem_walk (split ▸ mem_append_right front mem_cons_self)
      refine suffixes_of_name { document := { uri, text }, notice, number } parsed isFunc (mem_singleton_self _)
        ranged fun nonempty => ?_
      exact ⟨_, by rw [renameFunction, functionName?, Request.name?_of_data _ data nonempty, Option.map_some]⟩
    · rw [Violations.uniqueFunctions, Violations.uniqueFunctions, length_map, length_map, split, split',
        ← named]
      exact Violations.length_repeated_rekey again

private def takenName : Text := "int x, x, x_new;\n".toList

private def declaresTaken : Node → Bool
  | .decl decl => decl.defs.map VarDef.name == ["x", "x", "x_new"]
  | _ => true

/-- The new name of the second variable is that of the third one, and the declaration repeats a name as before. -/
theorem rename_settles_unused_taken :
    ∃ analysis diagnostic notice decl front var back,
      analyze "t.sy" takenName {} ⟨[]⟩ = .ok analysis ∧ diagnostic ∈ analysis.diagnostics ∧
      Notice.ofDiagnostic (.text "sysy") diagnostic = .ok notice ∧ decl.defs = front ++ var :: back ∧ var.name = "x" ∧
      Suffixes renameVariable ⟨⟨"t.sy", takenName⟩, notice, 0⟩ "x" ∧ ∀ renamed : VarDef, renamed.name = "x_new" →
        (Violations.uniqueNames { decl with defs := front ++ renamed :: back }).length =
          (Violations.uniqueNames decl).length := by
  have names : (CompUnit.ofText "t.sy" takenName).toOption.map (fun unit => (Node.unit unit).walk.all declaresTaken) =
      some true := by
    decide +kernel
  have found : (analyze "t.sy" takenName {} ⟨[]⟩).toOption.map (fun analysis => analysis.diagnostics.any fun found =>
      found.code == .duplicateDeclaration && (Notice.ofDiagnostic (.text "sysy") found).toOption.isSome) =
      some true := by
    decide +kernel
  obtain ⟨_, parsed, names⟩ := Except.exists_of_toOption names
  obtain ⟨analysis, analyzed, found⟩ := Except.exists_of_toOption found
  obtain ⟨diagnostic, member, isFound⟩ := any_eq_true.mp found
  rw [Bool.and_eq_true, beq_iff_eq] at isFound
  obtain ⟨notice, shown⟩ := Option.isSome_iff_exists.mp isFound.2
  replace shown := Except.eq_ok_of_toOption shown
  obtain ⟨decl, front, var, back, isDecl, split, again, suffixes, count⟩ :=
    (rename_settles_unused parsed analyzed member shown "t.sy" 0).1 isFound.1
  have three : decl.defs.map VarDef.name = ["x", "x", "x_new"] := beq_iff_eq.mp (all_eq_true.mp names _ isDecl)
  have named : var.name = "x" := by
    rw [split, map_append, map_cons] at three
    rcases front with _ | ⟨_, _ | ⟨_, _ | ⟨_, _⟩⟩⟩
    · cases again
    · simp_all
    · simp_all
    · simp at three
  rw [three, named] at count
  rw [named] at suffixes
  exact ⟨analysis, diagnostic, notice, decl, front, var, back, analyzed, member, shown, split, named, suffixes, count⟩

end Fix

end SysYTools
