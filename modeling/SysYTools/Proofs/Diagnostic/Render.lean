import SysYTools.Diagnostic.Render
import SysYTools.Proofs.Editor.Notice

/-!
The line of the program that is printed for a diagnostic. Diagnostics count line feeds, and printed lines end at
other characters too, so it is the line that is meant where the line feed is the only boundary in the text.
-/

namespace SysYTools

open List Text

theorem Text.lines_eq_printedLines {text : Text} (feeds : ∀ c ∈ text, isLineBoundary c = true → c = '\n') :
    text.lines = text.printedLines ∨ text.lines = text.printedLines ++ [[]] := by
  induction text with
  | nil => exact .inr rfl
  | cons c rest ih =>
    have tail := ih fun d member => feeds d (mem_cons_of_mem _ member)
    have plain : c ≠ '\r' := by
      rintro rfl
      cases feeds '\r' mem_cons_self rfl
    rw [printedLines, boundedLines]
    swap
    · exact fun _ isReturn => absurd isReturn plain
    by_cases feed : c = '\n'
    · subst feed
      rw [lines_cons_feed, if_pos (show isLineBoundary '\n' = true from rfl)]
      simpa [printedLines] using tail
    · obtain ⟨_, _, isLines, extended⟩ := lines_cons_of_ne rest feed
      rw [extended, if_neg fun boundary => feed (feeds c mem_cons_self boundary)]
      rw [isLines, printedLines] at tail
      cases cut : boundedLines rest with
      | nil => exact .inl (by simpa [cut] using tail)
      | cons => simpa [cut] using tail

namespace Diagnostic

/-- For a label the line of a text is printed, or none if it is the empty last line. -/
def Shows (palette : Palette) (severity : Severity) (text : Text) (label : Label) : Prop :=
  0 < label.span.startLine ∧ ∃ line, text.lines[(label.span.startLine - 1).toNat]? = some line ∧
    (labelLines palette severity text.printedLines label = labelLines palette severity text.lines label ∨
      line = [] ∧ label.span.startLine = text.lines.length ∧
        labelLines palette severity text.printedLines label = labelLines palette severity [] label)

/-- In a text without other line boundaries than line feeds, the line in which a diagnostic starts is shown. -/
theorem labelLines_show_start {file : String} {text : Text} {settings : CheckSettings} {table : ExplanationTable}
    {analysis : Analysis} (feeds : ∀ c ∈ text, isLineBoundary c = true → c = '\n')
    (analyzed : analyze file text settings table = .ok analysis) (palette : Palette) :
    ∀ diagnostic ∈ analysis.diagnostics, ∃ label, diagnostic.labels.head? = some label ∧
      Shows palette diagnostic.severity text label := by
  intro diagnostic member
  obtain ⟨_, found, within⟩ := analyze_within analyzed diagnostic member
  obtain ⟨label, isLabel, rfl⟩ := Option.map_eq_some_iff.mp found
  obtain ⟨before, ahead, _, -⟩ := within.start
  have inside : before.count '\n' < text.lines.length := (Document.holds_after "" ahead).1
  have index : (label.span.startLine - 1).toNat = before.count '\n' := by omega
  obtain ⟨line, isLine⟩ : ∃ line, text.lines[before.count '\n']? = some line := ⟨_, getElem?_eq_getElem inside⟩
  have depends : ∀ {source source' : List Text}, source[before.count '\n']? = source'[before.count '\n']? →
      labelLines palette diagnostic.severity source label = labelLines palette diagnostic.severity source' label := by
    intro source source' same
    simp only [labelLines, index, same]
  refine ⟨label, isLabel, by omega, line, by rw [index, isLine], ?_⟩
  rcases lines_eq_printedLines feeds with same | same
  · exact .inl (by rw [same])
  · simp only [same, length_append, length_singleton] at inside isLine ⊢
    rcases Nat.lt_or_ge (before.count '\n') text.printedLines.length with isShown | beyond
    · exact .inl (depends (getElem?_append_left isShown).symm)
    · have last : before.count '\n' = text.printedLines.length := by omega
      refine .inr ⟨by simpa [last] using isLine, by omega, depends (by simp [last])⟩

/-- The second line of a declaration repeats a name. -/
theorem labelLines_show_start_second :
    ∃ analysis, analyze "t.sy" "int x,\n x;".toList {} ⟨[]⟩ = .ok analysis ∧ analysis.diagnostics.length = 1 ∧
      ∀ diagnostic ∈ analysis.diagnostics, ∃ label, diagnostic.labels.head? = some label ∧
        Shows ⟨false⟩ diagnostic.severity "int x,\n x;".toList label := by
  have count : (analyze "t.sy" "int x,\n x;".toList {} ⟨[]⟩).toOption.map (·.diagnostics.length) = some 1 := by
    decide +kernel
  obtain ⟨analysis, analyzed, one⟩ := Except.exists_of_toOption count
  exact ⟨analysis, analyzed, one, labelLines_show_start (by simp [isLineBoundary]) analyzed ⟨false⟩⟩

end Diagnostic

end SysYTools
