import SysYTools.Proofs.Fix.Renaming
import SysYTools.Proofs.Rule.Unused

/-!
The fix that removes an unused variable. It deletes the whole line of the variable, whatever else stands there.
-/

namespace SysYTools

open List

namespace Fix

theorem applyAll_line {above line below : Text} (start : above.lastLine = []) (inner : '\n' ∉ line)
    (ends : ∀ c ∈ below.head?, c = '\n') :
    Edit.applyAll (above ++ line ++ below) [⟨⟨lineStart (above.count '\n'), lineStart (above.count '\n' + 1)⟩, []⟩] =
      above ++ below.tail := by
  have count : line.count '\n' = 0 := count_eq_zero.mpr inner
  cases below with
  | nil =>
    have first : Document.offsetAt ⟨"", above ++ line⟩ (lineStart (above.count '\n')) = above.length := by
      rw [← Document.offsetAt_after "" (prefix_append above line), start]
      rfl
    have last : Document.offsetAt ⟨"", above ++ line⟩ (lineStart (above.count '\n' + 1)) = (above ++ line).length := by
      refine Document.offsetAt_of_ge _ (not_lt.mp fun more => ?_)
      obtain ⟨_, _, split, counted, -⟩ := Document.exists_cut_at _ more
      have feeds := congrArg (List.count '\n') split
      simp only [count_append, counted, count, lineStart] at feeds
      omega
    simp only [append_nil, Edit.applyAll, Edit.toSplice, map_cons, map_nil, mergeSort_singleton, foldl_cons, foldl_nil,
      first, last, Text.splice, take_left, drop_length, tail_nil]
  | cons c rest =>
    obtain rfl : c = '\n' := ends c rfl
    have deleted := Edit.applyAll_replace above (line ++ ['\n']) [] rest
    rw [← append_assoc, Text.lastLine_append_feed, start] at deleted
    simpa [count, lineStart] using deleted

theorem removeUnusedVariable_eq (request : Request) {name : String} (named : variableName? request = some name)
    (inside : (request.startLine : Int) < Coordinate.limit) :
    removeUnusedVariable request = .ok (some (request.replace s!"Remove unused variable '{name}'"
      ⟨lineStart request.startLine, lineStart (request.startLine + 1)⟩ "")) := by
  have ran : Range.line request.startLine = .ok ⟨lineStart request.startLine, lineStart (request.startLine + 1)⟩ := by
    rw [Range.line, Range.ofInts_eq_ok_iff, Position.ofInts_eq_ok_iff, Position.ofInts_eq_ok_iff]
    exact ⟨⟨⟨rfl, by omega⟩, rfl, by decide⟩, ⟨rfl, by omega⟩, rfl, by decide⟩
  rw [removeUnusedVariable, named]
  simp only [ran]
  rfl

/-- Removing an unused variable. Deleting it introduces no error: every error of the program without it is one of the
analysis, and every function and every other variable stays. The action deletes the whole line of its name. -/
theorem removeUnusedVariable_deletes_line {file : String} {text : Text} {unit : CompUnit}
    (parsed : CompUnit.ofText file text = .ok unit) {settings : CheckSettings} {table : ExplanationTable}
    {analysis : Analysis} (analyzed : analyze file text settings table = .ok analysis) {diagnostic : Diagnostic}
    (member : diagnostic ∈ analysis.diagnostics) (isUnused : diagnostic.code = .unusedVariable)
    (short : (text.length : Int) < Coordinate.limit) (source uri : String) (number : Nat) :
    ∃ var linkage', .varDef var ∈ (Node.unit unit).walk ∧ diagnostic.span? = some var.nameSpan ∧
      (unit.without var.nameSpan).link = .ok linkage' ∧
      (∀ error ∈ Program.check ⟨unit.without var.nameSpan, linkage'⟩ Rulebook.standard settings table,
        error.severity = .error → error ∈ analysis.diagnostics) ∧
      (unit.without var.nameSpan).functions = unit.functions.map (·.without var.nameSpan) ∧
      (∀ other, .varDef other ∈ (Node.unit unit).walk → other ≠ var →
        .varDef other ∈ (Node.unit (unit.without var.nameSpan)).walk) ∧
      ∃ notice action edit above line below, Notice.ofDiagnostic (.text source) diagnostic = .ok notice ∧
        removeUnusedVariable { document := { uri, text }, notice, number } = .ok (some action) ∧
        action.effect = .edits uri [edit] ∧ text = above ++ line ++ below ∧
        (above.count '\n' : Int) + 1 = var.nameSpan.startLine ∧ above.lastLine = [] ∧ '\n' ∉ line ∧
        (∀ c ∈ below.head?, c = '\n') ∧ Edit.applyAll text [edit] = above ++ below.tail := by
  obtain ⟨notice, shown, -, holds⟩ := exists_notice analyzed member short
    (show Notice.sourceName (.text source) = _ from rfl) uri
  obtain ⟨_, laidOut⟩ := CompUnit.exists_source parsed
  have laid := laidOut.laid
  obtain ⟨var, linkage, _, isPart, rfl, linked, unused, isAnalysis⟩ :=
    exists_unused_of_diagnostic parsed analyzed member isUnused
  obtain ⟨linkage', linked'⟩ := @CompUnit.exists_link_without var.nameSpan unit linkage laid.aligned linked
  refine ⟨var, linkage', isPart, rfl, linked', fun error isError severe => ?_, Lexical.functions_without unit,
    fun _ isOther differs => Node.varDef_mem_walk_without laid isPart isOther differs, ?_⟩
  · obtain ⟨report, isReport, rfl⟩ := mem_map.mp isError
    rw [CheckSettings.present_severity] at severe
    rw [isAnalysis]
    exact mem_map_of_mem (Program.error_of_without laid linked unused linked' severe isReport)
  · obtain ⟨ranged, data⟩ : var.nameSpan.toRange = .ok notice.range ∧ _ := notice_of_report shown
    obtain ⟨nonempty, -⟩ := exists_name_cut parsed isPart (mem_singleton_self _) ranged
    obtain ⟨⟨isLine, -⟩, -⟩ := Position.ofInts_eq_ok_iff.mp (Range.ofInts_eq_ok_iff.mp ranged).1
    obtain ⟨above, below, split, count, start, inner, ends, -⟩ := Document.exists_cut_at { uri, text } holds.1
    have few : above.count '\n' ≤ text.length := by
      rw [show text = _ from split, append_assoc, length_append]
      exact le_add_right count_le_length
    have runs := removeUnusedVariable_eq { document := { uri, text }, notice, number }
      (Request.name?_of_data _ data nonempty _) (show (notice.range.start.line : Int) < _ by omega)
    refine ⟨notice, _, _, above, _, below, shown, runs, rfl, split, by omega, start, inner, ends, ?_⟩
    have deleted := applyAll_line start inner ends
    rwa [← split, count] at deleted

private def oneLine : Text := "void f()\x7bint a;\x7d".toList

/-- The line of the variable may be the whole program. -/
theorem removeUnusedVariable_deletes_line_one :
    ∃ analysis diagnostic notice action edit, analyze "t.sy" oneLine {} ⟨[]⟩ = .ok analysis ∧
      diagnostic ∈ analysis.diagnostics ∧ diagnostic.code = .unusedVariable ∧
      Notice.ofDiagnostic (.text "sysy") diagnostic = .ok notice ∧
      removeUnusedVariable { document := ⟨"t.sy", oneLine⟩, notice, number := 0 } = .ok (some action) ∧
      action.effect = .edits "t.sy" [edit] ∧ Edit.applyAll oneLine [edit] = [] := by
  have warned : (analyze "t.sy" oneLine {} ⟨[]⟩).toOption.map (·.diagnostics.map (·.code)) = some [.unusedVariable] := by
    decide +kernel
  have readable : (CompUnit.ofText "t.sy" oneLine).toOption.map (fun _ => ()) = some () := by decide +kernel
  obtain ⟨analysis, analyzed, warned⟩ := Except.exists_of_toOption warned
  obtain ⟨_, parsed, -⟩ := Except.exists_of_toOption readable
  obtain ⟨diagnostic, member, isUnused⟩ := mem_map.mp (warned ▸ mem_cons_self)
  obtain ⟨_, _, -, -, -, -, -, -, notice, action, edit, above, line, below, shown, runs, effect, split, -, start, -, ends,
    deleted⟩ := removeUnusedVariable_deletes_line parsed analyzed member isUnused (by decide) "sysy" "t.sy" 0
  have none : '\n' ∉ above ++ line ++ below := split ▸ by decide
  simp only [mem_append, not_or] at none
  have first : above = [] := (Text.lastLine_append_of_no_feed [] none.1.1).symm.trans start
  have last : below = [] := by
    cases below with
    | nil => rfl
    | cons c _ => exact absurd (ends c rfl ▸ mem_cons_self) none.2
  rw [first, last] at deleted
  exact ⟨analysis, diagnostic, notice, action, edit, analyzed, member, isUnused, shown, runs, effect, deleted⟩

end Fix

end SysYTools
