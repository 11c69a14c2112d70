import SysYTools.Proofs.Fix.Wording
import SysYTools.Proofs.Retelling

/-!
Explanations are a matter of wording. The analysis of a document with explanations is the analysis without
them, with every message explained, and the editor offers the same actions for the notices of both.
-/

namespace SysYTools

open List

variable {fault : Fault} {notice : Notice} {α β : Type} {notices : List Notice}

/-! ## Explained results -/

def CheckSettings.withMessages (settings : CheckSettings) (value : Value) : CheckSettings :=
  { settings with enrichMessages := value }

def Settings.withMessages (settings : Settings) (value : Value) : Settings :=
  { settings with check := settings.check.withMessages value }

def Diagnostic.explained (diagnostic : Diagnostic) : Diagnostic :=
  { diagnostic with message := ExplanationTable.standard.enrichSafely diagnostic.message }

def Analysis.explained (analysis : Analysis) : Analysis :=
  { analysis with diagnostics := analysis.diagnostics.map (·.explained) }

def Notice.explained (notice : Notice) : Notice :=
  { notice with message := ExplanationTable.standard.enrichSafely notice.message }

variable {rich plain : Value}

section Analyses

variable {file : String} {text : Text} {settings : CheckSettings}

theorem CheckSettings.present_rich (isRich : rich.isGiven = true) (diagnostic : Diagnostic) :
    (settings.withMessages rich).present .standard diagnostic = diagnostic.explained :=
  if_pos isRich

theorem CheckSettings.present_plain (isPlain : plain.isGiven = false) (diagnostic : Diagnostic) :
    (settings.withMessages plain).present .standard diagnostic = diagnostic :=
  if_neg (by simp [withMessages, isPlain])

theorem analyze_explained (isRich : rich.isGiven = true) (isPlain : plain.isGiven = false) :
    analyze file text (settings.withMessages rich) .standard =
      (analyze file text (settings.withMessages plain) .standard).map (·.explained) := by
  unfold analyze
  split
  next reports =>
    simp only [CheckSettings.present_rich isRich, CheckSettings.present_plain isPlain, Except.map,
      Analysis.explained, map_map, Function.comp_def]
  next unit _ =>
    cases Program.ofUnit unit with
    | error => rfl
    | ok =>
      have selected : (settings.withMessages rich).select Rulebook.standard =
          (settings.withMessages plain).select Rulebook.standard := rfl
      simp only [bind, Except.bind, pure, Except.pure, Except.map, Program.check, selected,
        CheckSettings.present_rich isRich, CheckSettings.present_plain isPlain, Analysis.explained,
        map_map, Function.comp_def]

theorem analyze_problem (isPlain : plain.isGiven = false) {analysis : Analysis}
    (analyzed : analyze file text (settings.withMessages plain) .standard = .ok analysis) :
    ∀ diagnostic ∈ analysis.diagnostics, ∃ problem : Problem, problem.Sound ∧
      problem.Readable (max text.length 2) ∧ diagnostic.code = problem.code ∧
        diagnostic.message = problem.message ∧ diagnostic.data = problem.payload := by
  cases parsed : CompUnit.ofText file text with
  | error =>
    simp only [analyze, parsed, CheckSettings.present_plain isPlain] at analyzed
    obtain rfl := Except.ok.inj analyzed
    intro diagnostic member
    obtain ⟨report, isReport, rfl⟩ := mem_map.mp member
    exact ⟨report.problem, CompUnit.sound_of_ofText_error parsed isReport,
      CompUnit.readable_of_ofText_error parsed isReport _, rfl, rfl, rfl⟩
  | ok =>
    obtain ⟨_, linked, rfl⟩ := exists_program_of_analyze parsed analyzed
    intro diagnostic member
    simp only [Program.check, CheckSettings.present_plain isPlain] at member
    obtain ⟨report, isReport, rfl⟩ := mem_map.mp member
    exact ⟨report.problem, (Program.worded_of_violations parsed linked isReport).toSound,
      Program.readable_of_violations parsed linked isReport, rfl, rfl, rfl⟩

theorem analyze_stopsLinking {table : ExplanationTable}
    (stopped : analyze file text settings table = .error fault) : fault.StopsLinking := by
  unfold analyze at stopped
  split at stopped
  · cases stopped
  next unit _ =>
    have keeps := unit.link_keeps
    cases linked : unit.link with
    | error =>
      rw [linked] at keeps
      simp only [Program.ofUnit, linked, Except.mapError, bind, Except.bind] at stopped
      obtain rfl := Except.error.inj stopped
      cases keeps
      assumption
    | ok =>
      simp only [Program.ofUnit, linked, Except.mapError, bind, Except.bind, pure, Except.pure] at stopped
      cases stopped

end Analyses

/-! ## Explained notices -/

section Notices

variable {source : Value}

theorem Notice.ofDiagnostic_explained (diagnostic : Diagnostic) :
    Notice.ofDiagnostic source diagnostic.explained = (Notice.ofDiagnostic source diagnostic).map (·.explained) := by
  have span : diagnostic.explained.span? = diagnostic.span? := rfl
  simp only [Notice.ofDiagnostic, span]
  cases diagnostic.span? with
  | none => cases Notice.sourceName source <;> rfl
  | some span =>
    dsimp only
    cases span.toRange with
    | error => rfl
    | ok => cases Notice.sourceName source <;> rfl

theorem Notice.ofFault_explained (stops : fault.StopsLinking) :
    (Notice.ofFault source fault).map (·.explained) = Notice.ofFault source fault := by
  rw [Notice.ofFault]
  cases Notice.sourceName source with
  | error => rfl
  | ok => simp only [bind, Except.bind, pure, Except.pure, Except.map, Notice.explained, stops.enrichSafely_message]

theorem Notice.fields_of_ofFault (made : Notice.ofFault source fault = .ok notice) :
    notice.code = none ∧ notice.data = .null := by
  rw [Notice.ofFault] at made
  cases named : Notice.sourceName source with
  | error => simp [named, bind, Except.bind] at made
  | ok =>
    rw [named] at made
    obtain rfl := Except.ok.inj made
    exact ⟨rfl, rfl⟩

theorem Notice.fields_of_ofDiagnostic {diagnostic : Diagnostic}
    (made : Notice.ofDiagnostic source diagnostic = .ok notice) :
    notice.code = some diagnostic.code.name ∧ notice.message = diagnostic.message ∧
      notice.data = .record (diagnostic.data ++ [("category", .text diagnostic.category.name)]) := by
  have ranged : ∃ range : Except Fault Range, Notice.ofDiagnostic source diagnostic = range.bind fun range =>
      (Notice.sourceName source).map fun source =>
        { range, severity := some diagnostic.severity, code := some diagnostic.code.name, source
          message := diagnostic.message
          data := .record (diagnostic.data ++ [("category", .text diagnostic.category.name)]) } := by
    rw [Notice.ofDiagnostic]
    cases diagnostic.span? <;> exact ⟨_, rfl⟩
  obtain ⟨range, shape⟩ := ranged
  rw [shape] at made
  cases range with
  | error => cases made
  | ok =>
    cases named : Notice.sourceName source with
    | error => simp [named, Except.bind, Except.map] at made
    | ok =>
      rw [named] at made
      obtain rfl := Except.ok.inj made
      exact ⟨rfl, rfl, rfl⟩

private theorem mapM_map_comm {convert : α → Except Fault β} {before : α → α}
    {after : β → β} (commutes : ∀ item, convert (before item) = (convert item).map after)
    (items : List α) : (items.map before).mapM convert = (items.mapM convert).map (List.map after) := by
  induction items with
  | nil => rfl
  | cons item items ih =>
    rw [map_cons, mapM_cons, mapM_cons, commutes, ih]
    cases convert item <;> cases items.mapM convert <;> rfl

private theorem exists_of_mem_mapM {convert : α → Except Fault β} {items : List α}
    {results : List β} (converted : items.mapM convert = .ok results) :
    ∀ result ∈ results, ∃ item ∈ items, convert item = .ok result := by
  induction items generalizing results with
  | nil =>
    cases converted
    simp
  | cons item items ih =>
    rw [mapM_cons] at converted
    cases first : convert item with
    | error => simp [first, bind, Except.bind] at converted
    | ok value =>
      cases rest : items.mapM convert with
      | error => simp [first, rest, bind, Except.bind] at converted
      | ok values =>
        obtain rfl : value :: values = results := by
          simpa [first, rest, bind, Except.bind, pure, Except.pure] using converted
        refine forall_mem_cons.mpr ⟨⟨item, mem_cons_self, first⟩, fun result member => ?_⟩
        obtain ⟨other, isOther, found⟩ := ih rest result member
        exact ⟨other, mem_cons_of_mem _ isOther, found⟩

end Notices

/-- An explanation does not change the notice, or the notice says of a problem what is known of it. -/
def Notice.Plain (notice : Notice) : Prop :=
  notice.explained = notice ∨ ∃ problem : Problem, problem.Sound ∧ notice.message = problem.message ∧
    ∀ current number, Request.About { document := current, notice, number } problem

/-! ## Explained documents -/

namespace Document

variable {settings : Settings}

theorem analyze_isOk (document : Document) {name : Option String}
    (short : (document.text.length : Int) < Coordinate.limit)
    (named : Notice.sourceName settings.server.source = .ok name) :
    ∃ answer, document.analyze settings = .ok answer := by
  rw [analyze]
  cases analyzed : SysYTools.analyze document.uri document.text settings.check .standard with
  | error =>
    simp only [Notice.ofFault, named]
    exact ⟨_, rfl⟩
  | ok =>
    obtain ⟨_, converted, -⟩ := exists_notices short named analyzed
    simp only [converted]
    exact ⟨_, rfl⟩

theorem analyze_explained (document : Document) (isRich : rich.isGiven = true) (isPlain : plain.isGiven = false) :
    document.analyze (settings.withMessages rich) =
      (document.analyze (settings.withMessages plain)).map fun (result, notices) =>
        (result.map (·.explained), notices.map (·.explained)) := by
  have same : SysYTools.analyze document.uri document.text (settings.withMessages rich).check .standard =
      (SysYTools.analyze document.uri document.text (settings.withMessages plain).check .standard).map
        (·.explained) := SysYTools.analyze_explained isRich isPlain
  rw [analyze, analyze, same]
  cases analyzed : SysYTools.analyze document.uri document.text (settings.withMessages plain).check .standard with
  | error fault =>
    have unchanged := @Notice.ofFault_explained fault settings.server.source (analyze_stopsLinking analyzed)
    simp only [Except.map]
    change (do return (none, [← Notice.ofFault settings.server.source fault])) =
      Except.map _ (do return (none, [← Notice.ofFault settings.server.source fault]))
    conv_lhs => rw [← unchanged]
    cases Notice.ofFault settings.server.source fault <;> rfl
  | ok analysis =>
    have commutes : (analysis.diagnostics.map (·.explained)).mapM
          (Notice.ofDiagnostic settings.server.source) =
        (analysis.diagnostics.mapM (Notice.ofDiagnostic settings.server.source)).map
          (List.map (·.explained)) := mapM_map_comm Notice.ofDiagnostic_explained _
    change (do return (some analysis.explained, ← analysis.explained.diagnostics.mapM
        (Notice.ofDiagnostic settings.server.source))) =
      Except.map _ (do return (some analysis, ← analysis.diagnostics.mapM
        (Notice.ofDiagnostic settings.server.source)))
    rw [Analysis.explained, commutes]
    cases analysis.diagnostics.mapM (Notice.ofDiagnostic settings.server.source) <;> rfl

section

variable {document : Document} (isPlain : plain.isGiven = false) {result : Option Analysis}
include isPlain

theorem notice_of_analyze
    {notices : List Notice} (analyzed : document.analyze (settings.withMessages plain) = .ok (result, notices)) :
    ∀ notice ∈ notices, (notice.explained = notice ∧ notice.code = none ∧ notice.data = .null) ∨
      ∃ problem : Problem, problem.Sound ∧ problem.Readable (max document.text.length 2) ∧
        notice.message = problem.message ∧
        ∀ current number, Request.About { document := current, notice, number } problem := by
  rw [analyze] at analyzed
  cases checked : SysYTools.analyze document.uri document.text (settings.withMessages plain).check .standard with
  | error fault =>
    have unchanged := @Notice.ofFault_explained fault settings.server.source (analyze_stopsLinking checked)
    rw [checked] at analyzed
    change (do return (none, [← Notice.ofFault settings.server.source fault])) = _ at analyzed
    cases made : Notice.ofFault settings.server.source fault with
    | error => simp [made, bind, Except.bind] at analyzed
    | ok =>
      rw [made] at analyzed unchanged
      obtain ⟨-, rfl⟩ := Prod.mk.inj (Except.ok.inj analyzed)
      exact forall_mem_singleton.mpr (.inl ⟨Except.ok.inj unchanged, Notice.fields_of_ofFault made⟩)
  | ok analysis =>
    rw [checked] at analyzed
    change (do return (some analysis, ← analysis.diagnostics.mapM
      (Notice.ofDiagnostic settings.server.source))) = _ at analyzed
    cases converted : analysis.diagnostics.mapM (Notice.ofDiagnostic settings.server.source) with
    | error => simp [converted, bind, Except.bind] at analyzed
    | ok =>
      rw [converted] at analyzed
      obtain ⟨-, rfl⟩ := Prod.mk.inj (Except.ok.inj analyzed)
      intro notice member
      obtain ⟨diagnostic, isDiagnostic, made⟩ := exists_of_mem_mapM converted notice member
      obtain ⟨problem, sound, readable, code, message, data⟩ := analyze_problem isPlain checked diagnostic isDiagnostic
      obtain ⟨hasCode, hasMessage, hasData⟩ := Notice.fields_of_ofDiagnostic made
      rw [code] at hasCode
      rw [data] at hasData
      exact .inr ⟨problem, sound, readable, hasMessage.trans message, fun _ _ => ⟨hasCode, _, hasData⟩⟩

theorem plain_of_analyze
    (analyzed : document.analyze (settings.withMessages plain) = .ok (result, notices)) :
    ∀ notice ∈ notices, notice.Plain := by
  intro notice member
  rcases notice_of_analyze isPlain analyzed notice member with ⟨same, -⟩ | ⟨problem, sound, -, said⟩
  · exact .inl same
  · exact .inr ⟨problem, sound, said⟩

end

end Document

/-! ## Explained actions -/

namespace Menu

theorem fixes_explained (current : Document) (plain : ∀ notice ∈ notices, notice.Plain) :
    fixes .standard current (notices.map (·.explained)) = fixes .standard current notices := by
  have each : ∀ notice ∈ notices, ∀ number,
      FixTable.standard.actions { document := current, notice := notice.explained, number } =
        FixTable.standard.actions { document := current, notice, number } := by
    intro notice member number
    rcases plain notice member with same | ⟨_, sound, message, about⟩
    · rw [same]
    · have reworded := FixTable.actions_reword (about current number) sound message
      rwa [← message] at reworded
  have all : ∀ make : Notice × Nat → Request,
      (∀ pair, make pair = { document := current, notice := pair.1, number := pair.2 }) →
      ((notices.map (·.explained)).zipIdx.map make).flatMap FixTable.standard.actions =
        (notices.zipIdx.map make).flatMap FixTable.standard.actions := by
    intro make made
    rw [zipIdx_map, map_map, flatMap_map, flatMap_map]
    apply flatMap_congr
    rintro ⟨notice, number⟩ member
    rw [Function.comp_apply, made, made]
    exact each notice (fst_mem_of_mem_zipIdx member) number
  rw [fixes, fixes, all]
  · cases notices with
    | nil => rfl
    | cons =>
      -- Only where there is no fix does the first request matter, and an attempt at it reads no message.
      generalize List.flatMap _ _ = actions
      cases actions <;> rfl
  · exact fun _ => rfl

end Menu

namespace Document

/-- Explanations change only messages. With and without them the analysis of a document has the same outcome,
and it fails only for a text that is too long or a source that is no name. The notices are the same, in the
same order, up to their messages, and each message with explanations is the explanation of the one without.
For the notices of both an editor offers the same actions, whatever has become of the document since. -/
theorem explanations_change_no_action (document : Document) (settings : Settings)
    (isRich : rich.isGiven = true) (isPlain : plain.isGiven = false) :
    (∃ fault, document.analyze (settings.withMessages rich) = .error fault ∧
      document.analyze (settings.withMessages plain) = .error fault ∧
      ((document.text.length : Int) < Coordinate.limit →
        ∀ name, Notice.sourceName settings.server.source ≠ .ok name)) ∨
    ∃ explained notices, (document.analyze (settings.withMessages rich)).map Prod.snd = .ok explained ∧
      (document.analyze (settings.withMessages plain)).map Prod.snd = .ok notices ∧
      List.Forall₂ (fun notice enriched => ∃ message, ExplanationTable.standard.enrich notice.message = .ok message ∧
          enriched = { notice with message }) notices explained ∧
      ∀ current selection isCancelled,
        Menu.actions .standard settings.refactor current explained selection isCancelled =
          Menu.actions .standard settings.refactor current notices selection isCancelled := by
  rw [analyze_explained document isRich isPlain]
  cases analyzed : document.analyze (settings.withMessages plain) with
  | error fault =>
    refine .inl ⟨fault, rfl, rfl, fun short name named => ?_⟩
    obtain ⟨answer, answered⟩ := @analyze_isOk (settings.withMessages plain) document name short named
    rw [analyzed] at answered
    cases answered
  | ok answer =>
    obtain ⟨_, notices⟩ := answer
    refine .inr ⟨notices.map (·.explained), notices, rfl, rfl, ?_, fun current selection isCancelled => ?_⟩
    · exact List.forall₂_map_right_iff.mpr (List.forall₂_same.mpr fun notice _ =>
        ⟨_, ExplanationTable.enrich_standard notice.message, rfl⟩)
    · rw [Menu.actions, Menu.actions, Menu.fixes_explained current (plain_of_analyze isPlain analyzed)]

/-- A declaration that is not ended has a notice, and both messages of it lead to the same actions. -/
theorem explanations_change_no_action_unended :
    Value.isGiven (.bool true) = true ∧ Value.isGiven (.bool false) = false ∧
      ∃ explained notices,
        (Document.analyze ⟨"t.sy", "int a".toList⟩ (Settings.withMessages {} (.bool true))).map Prod.snd =
          .ok explained ∧
        (Document.analyze ⟨"t.sy", "int a".toList⟩ (Settings.withMessages {} (.bool false))).map Prod.snd =
          .ok notices ∧
        List.Forall₂ (fun notice enriched => ∃ message, ExplanationTable.standard.enrich notice.message = .ok message ∧
            enriched = { notice with message }) notices explained ∧
        ∀ current selection, Menu.actions .standard {} current explained selection false =
            Menu.actions .standard {} current notices selection false := by
  refine ⟨rfl, rfl, ?_⟩
  rcases @explanations_change_no_action (.bool true) (.bool false) ⟨"t.sy", "int a".toList⟩ {} rfl rfl with
    ⟨_, _, _, long⟩ | ⟨explained, notices, rich, plain, enriched, same⟩
  · exact absurd rfl (long (by decide) (some "sysy"))
  · exact ⟨explained, notices, rich, plain, enriched, fun current selection => same current selection false⟩

end Document

end SysYTools
