import SysYTools.Editor.Notice
import SysYTools.Proofs.Analysis
import SysYTools.Proofs.Tree.Nesting
import SysYTools.Proofs.Tree.Pairing

/-!
The notices of a document. Whatever stage of the analysis finds a problem, its span is a place of the text: a lexical
problem stands where a piece of the text starts, a problem of grammar at a token, and a broken rule at a part of the
tree, which starts and ends with tokens. So every span has a range, if positions can count the text at all, and the
analysis of a document has an answer.
-/

namespace SysYTools

open List Grammar Lexis

variable {text : Text} {file : String} {settings : CheckSettings} {table : ExplanationTable}
variable {reports : List Report} {site : Node.Site}
variable {analysis : Analysis} {before : Text} {linkage : Linkage} {name : Option String} {report : Report}
  {source : Value} {unit : CompUnit} {words : List Token}

/-! ## Places of a text -/

theorem Text.length_lastLine_le (text : Text) : text.lastLine.length ≤ text.length := by
  simpa [Text.lastLine] using ( takeWhile_prefix (l := text.reverse) (· != '\n')).length_le

/-- A position in a document: its line exists and has that many characters at least. -/
def Document.Holds (document : Document) (position : Position) : Prop :=
  position.line < document.lines.length ∧ position.character ≤ (document.line position.line).length

theorem Document.holds_after (uri : String) (within : before <+: text) :
    Document.Holds { uri, text } ⟨before.count '\n', before.lastLine.length⟩ := by
  obtain ⟨after, rfl⟩ := within
  obtain ⟨line, _, rest, fits, -⟩ := Text.lines_cut before after
  have found : (before ++ after).lines[before.count '\n']? = some line := by rw [← head?_drop, rest, head?_cons]
  obtain ⟨inside, -⟩ := List.getElem?_eq_some_iff.mp found
  refine ⟨inside, ?_⟩
  rw [Document.line, Document.lines, found]
  exact fits

/-- A span of a text starts right after a part of it, and it ends in the last line of a part, at most one
column behind it. An empty span may end in the column before its start. -/
structure Span.Within (text : Text) (span : Span) : Prop where
  start : ∃ before : Text, before <+: text ∧ span.startLine = before.count '\n' + 1 ∧
    span.startColumn = before.lastLine.length + 1
  stop : ∃ before : Text, before <+: text ∧ span.endLine = before.count '\n' + 1 ∧
    0 ≤ span.endColumn ∧ span.endColumn ≤ before.lastLine.length + 1
  order : span.startLine < span.endLine ∨ span.startLine = span.endLine ∧ span.startColumn ≤ span.endColumn + 1

namespace Span.Within

variable {file : String} {text : Text} {span : Span}

theorem exists_toRange (within : span.Within text) (short : (text.length : Int) < Coordinate.limit) (uri : String) :
    ∃ range, span.toRange = .ok range ∧ range.start.le range.stop = true ∧
      Document.Holds { uri, text } range.start := by
  obtain ⟨⟨before, ahead, _, _⟩, ⟨whole, ahead', _, _, _⟩, _⟩ := within
  have size := ahead.length_le
  have size' := ahead'.length_le
  have lines : before.count '\n' ≤ before.length := count_le_length
  have lines' : whole.count '\n' ≤ whole.length := count_le_length
  have columns := Text.length_lastLine_le before
  have columns' := Text.length_lastLine_le whole
  refine ⟨⟨⟨before.count '\n', before.lastLine.length⟩, ⟨whole.count '\n', span.endColumn.toNat⟩⟩,
    ?_, ?_, Document.holds_after uri ahead⟩
  · rw [Span.toRange, Range.ofInts_eq_ok_iff, Position.ofInts_eq_ok_iff, Position.ofInts_eq_ok_iff]
    dsimp only
    omega
  · simp only [Position.le, Bool.or_eq_true, Bool.and_eq_true, decide_eq_true_eq, beq_iff_eq]
    omega

theorem point {before : Text} (ahead : before <+: text) :
    (Span.point file (Place.start.after before).line (Place.start.after before).column).Within text := by
  rw [Place.start_after]
  refine ⟨⟨before, ahead, ?_, ?_⟩, ⟨before, ahead, ?_, ?_, ?_⟩, .inr ⟨rfl, ?_⟩⟩
  all_goals simp only [Span.point]; omega

theorem endOfText : (tokenAfter file text .endOfInput []).span.Within text := by
  simp only [tokenAfter, append_nil, Place.spanTo, Place.start_after]
  refine ⟨⟨text, prefix_rfl, ?_, ?_⟩, ⟨text, prefix_rfl, ?_, ?_, ?_⟩, .inr ⟨rfl, ?_⟩⟩
  all_goals push_cast; omega

theorem of_stands {word : Token} {value : Text} (stands : Stands file text word before value) :
    word.span.Within text := by
  have positive := length_pos_iff.mpr stands.isToken.ne_nil
  have ahead : before <+: text := (prefix_append before value).trans stands.within
  have noFeed := stands.isToken.no_feed
  rw [stands.span_eq]
  refine ⟨⟨before, ahead, rfl, rfl⟩, ⟨before ++ value, stands.within, ?_, ?_, ?_⟩, .inr ⟨rfl, ?_⟩⟩
  · rw [count_append, count_eq_zero.mpr noFeed, Nat.add_zero]
  · dsimp only
    omega
  · rw [Text.lastLine_append_of_no_feed before noFeed, length_append]
    push_cast
    omega
  · dsimp only
    omega

theorem of_anchors (standing : ∀ word ∈ words, ∃ before value, Stands file text word before value)
    (anchors : Anchors words span) (ordered : span.Ordered) : span.Within text := by
  obtain ⟨first, isFirst, starts⟩ := anchors.first
  obtain ⟨last, isLast, ends⟩ := anchors.last
  obtain ⟨_, _, firstStands⟩ := standing first isFirst
  obtain ⟨_, _, lastStands⟩ := standing last isLast
  obtain ⟨startLine, startColumn⟩ := Prod.mk.inj (toLex.injective starts)
  obtain ⟨endLine, endColumn⟩ := Prod.mk.inj (toLex.injective ends)
  refine ⟨?_, ?_, ?_⟩
  · rw [startLine, startColumn]
    exact (of_stands firstStands).start
  · rw [endLine, endColumn]
    exact (of_stands lastStands).stop
  · rw [Span.Ordered, Span.first, Span.last, Prod.Lex.toLex_le_toLex] at ordered
    dsimp only at ordered
    omega

end Span.Within

/-! ## Problems of reading -/

theorem Scan.exists_piece {file : String} {before text : Text} {report : Report}
    (member : report ∈ (Scan.ofTextFrom file (Place.start.after before) text).reports) :
    ∃ left c rest length, left ++ c :: rest = before ++ text ∧
      report.span = Span.point file (Place.start.after left).line (Place.start.after left).column ∧
      (report.problem = .unterminatedComment ∨ Lexeme.read c rest = (.badInteger report.problem, length) ∨
        report.problem = .unexpectedCharacter c ∧ Lexeme.read c rest = (.unknown, length)) := by
  induction size_eq : text.length using Nat.strong_induction_on generalizing before text with
  | _ size ih =>
  cases text with
  | nil =>
    rw [Scan.ofTextFrom] at member
    cases member
  | cons c rest =>
    obtain ⟨⟨lexeme, length⟩, found⟩ : ∃ lexed, Lexeme.read c rest = lexed := ⟨_, rfl⟩
    have whole : before ++ (c :: rest.take length) ++ rest.drop length = before ++ c :: rest := by simp
    rw [Scan.ofTextFrom] at member
    simp only [found, ← Place.after_append] at member
    have shorter : (rest.drop length).length < size := by
      rw [← size_eq, length_drop, length_cons]
      omega
    have later := @ih _ shorter (before ++ (c :: rest.take length)) (rest.drop length)
    rw [whole] at later
    cases lexeme with
    | gap | token => exact later member rfl
    | unclosedComment =>
      rcases mem_cons.mp member with rfl | member
      · exact ⟨before, c, rest, length, rfl, rfl, .inl rfl⟩
      · exact later member rfl
    | badInteger =>
      rcases mem_cons.mp member with rfl | member
      · exact ⟨before, c, rest, length, rfl, rfl, .inr (.inl found)⟩
      · exact later member rfl
    | unknown =>
      rcases mem_cons.mp member with rfl | member
      · exact ⟨before, c, rest, length, rfl, rfl, .inr (.inr ⟨rfl, found⟩)⟩
      · exact later member rfl

theorem CompUnit.cases_of_ofText_error
    (failed : CompUnit.ofText file text = .error reports) (member : report ∈ reports) :
    report ∈ (Scan.ofText file text).reports ∨
      ∃ token : Token, report.span = token.span ∧ Parser.Blames token report.problem ∧
        ((∃ before value, Stands file text token before value) ∨ token = tokenAfter file text .endOfInput []) := by
  simp only [CompUnit.ofText, bind, Except.bind] at failed
  split at failed
  next lexical scanned =>
    obtain rfl := Except.error.inj failed
    simp only [Token.scan] at scanned
    split at scanned
    · cases scanned
    · obtain rfl := Except.error.inj scanned
      exact .inl member
  next tokens scanned =>
    obtain ⟨token, isToken, span, blames⟩ := CompUnit.blames_of_ofTokens failed member
    obtain ⟨_, rfl, -, -, standing⟩ := (placed_of_scan_eq_ok scanned).words
    refine .inr ⟨token, span, blames, ?_⟩
    rcases mem_append.mp isToken with isWord | isEnd
    · obtain ⟨before, value, -, stands⟩ := standing token isWord
      exact .inl ⟨before, value, stands⟩
    · exact .inr (mem_singleton.mp isEnd)

theorem CompUnit.within_of_ofText_error
    (failed : CompUnit.ofText file text = .error reports) (member : report ∈ reports) : report.span.Within text := by
  rcases CompUnit.cases_of_ofText_error failed member with lexical | ⟨_, span, -, ⟨_, _, stands⟩ | rfl⟩
  · obtain ⟨_, c, rest, -, whole, span, -⟩ := @Scan.exists_piece file [] text report lexical
    rw [span]
    exact .point ⟨c :: rest, whole⟩
  · exact span ▸ .of_stands stands
  · exact span ▸ .endOfText

/-! ## Broken rules -/

/-- A span is that of a part of a node, or of a word of a part. -/
def Node.Marks (node : Node) (span : Span) : Prop := ∃ part ∈ node.walk, span ∈ part.span :: part.words

theorem Node.Marks.span (node : Node) : node.Marks node.span := ⟨node, node.self_mem_walk, mem_cons_self⟩

theorem Node.Marks.word {node : Node} {word : Span} (isWord : word ∈ node.words) : node.Marks word :=
  ⟨node, node.self_mem_walk, mem_cons_of_mem _ isWord⟩

theorem Node.Marks.child {node child : Node} {span : Span} (isChild : child ∈ node.children)
    (marks : child.Marks span) : node.Marks span := by
  obtain ⟨part, member, isSpan⟩ := marks
  exact ⟨part, mem_walk_of_child isChild member, isSpan⟩

theorem BlockItem.LastReturn.marks {func : FuncDef} {value : Option Expr} {span : Span}
    (last : LastReturn func.body value span) : (Node.func func).Marks span := by
  obtain ⟨_, _, body, -⟩ := last
  have isItem : Node.stmt (.giveBack value span) ∈ (Node.stmt func.block).children := by
    simp [FuncDef.block, Node.children, body, BlockItem.node]
  have isBody : Node.stmt func.block ∈ (Node.func func).children := by simp [Node.children]
  exact .child isBody (.child isItem (.span _))

theorem Breach.marks {unit : CompUnit} {code : Code} {report : Report}
    (breach : Breach unit site code report) : site.node.Marks report.span := by
  have initializer : ∀ {var : VarDef} {init : InitVal}, var.init = some init →
      (Node.varDef var).Marks init.span := by
    intro var init found
    rw [← span_node_initVal]
    exact .child (by simp [Node.children, found]) (.span _)
  cases breach with
  | duplicateFunction | duplicateDeclaration | undefinedVariable | undefinedFunction | missingReturn =>
    exact .word (by simp [Node.words])
  | argumentCount | voidValue => exact .span (.expr _)
  | arrayOverflow _ found => exact initializer found
  | scalarList _ found => exact initializer found
  | arrayValue _ found => exact initializer found
  | @strayJump jump =>
    cases jump with
    | breakLoop => exact .span (.stmt (.breakLoop _))
    | continueLoop => exact .span (.stmt (.continueLoop _))
  | emptyReturn _ last => exact last.marks
  | voidReturnValue _ last => exact last.marks

theorem Program.cases_of_violations (aligned : unit.Aligned) (linked : unit.link = .ok linkage)
    (member : report ∈ Program.violations { unit, linkage } (settings.select Rulebook.standard)) :
    (∃ site ∈ (Node.unit unit).sites, Breach unit site report.problem.code report) ∨
      ∃ var, .varDef var ∈ (Node.unit unit).walk ∧ linkage.uses var = false ∧
        report = ⟨.unusedVariable var.name, var.nameSpan⟩ := by
  obtain ⟨site, isSite, member⟩ := mem_flatMap.mp member
  rw [Checking.select_violations] at member
  rcases mem_append.mp member with broken | unused
  · have broken := (Checking.violations_perm_reports aligned linked).mem_iff.mp
      (mem_flatMap.mpr ⟨site, isSite, broken⟩)
    obtain ⟨place, isPlace, isReport⟩ := mem_flatMap.mp broken
    exact .inl ⟨place, isPlace, Breach.mem_reports.mp ⟨isReport, rfl⟩⟩
  · obtain ⟨_, var, isVar, isDecl, free, isReport⟩ := Checking.unusedAt_cases unused
    refine .inr ⟨var, Node.mem_walk_trans (mem_map_of_mem isSite) ?_, free, isReport⟩
    rw [isDecl]
    exact Node.mem_walk_of_child (mem_map_of_mem isVar) (Node.self_mem_walk _)

theorem CompUnit.Source.within (source : unit.Source file text words) {span : Span}
    (marks : (Node.unit unit).Marks span) : span.Within text := by
  obtain ⟨_, member, isSpan⟩ := marks
  have fits := (source.laid.of_mem_walk member).fits
  have ordered : span.Ordered := by
    rcases mem_cons.mp isSpan with rfl | isWord
    · exact fits.ordered
    · exact (fits.word span isWord).1
  rcases source.derived.of_mem_walk member with rfl | ⟨_, inside, derived⟩
  · obtain rfl : span = unit.span := mem_singleton.mp isSpan
    have stop := (@Span.Within.endOfText file text).stop
    rw [source.span] at ordered ⊢
    rw [Span.Ordered, Span.first, Span.last, Prod.Lex.toLex_le_toLex] at ordered
    refine ⟨⟨[], nil_prefix, rfl, rfl⟩, stop, ?_⟩
    dsimp only at ordered ⊢
    omega
  · have anchors := (derived.anchors span isSpan).mono inside.subset
    exact .of_anchors source.stands anchors ordered

theorem Program.within_of_violations
    (parsed : CompUnit.ofText file text = .ok unit) (linked : unit.link = .ok linkage)
    (member : report ∈ Program.violations { unit, linkage } (settings.select Rulebook.standard)) :
    report.span.Within text := by
  obtain ⟨_, source⟩ := CompUnit.exists_source parsed
  rcases Program.cases_of_violations (CompUnit.aligned_of_ofText parsed) linked member with
    ⟨site, isSite, broken⟩ | ⟨_, isVar, -, rfl⟩
  · obtain ⟨part, member, isSpan⟩ := broken.marks
    have above : site.node ∈ (Node.unit unit).walk := mem_map_of_mem isSite
    exact source.within ⟨part, Node.mem_walk_trans above member, isSpan⟩
  · exact source.within ⟨_, isVar, mem_cons_of_mem _ mem_cons_self⟩

/-! ## Analyses -/

section Analyses

variable {file : String} {text : Text} {settings : CheckSettings} {table : ExplanationTable}

theorem analyze_isOk_iff_link (parsed : CompUnit.ofText file text = .ok unit) :
    (∃ analysis, analyze file text settings table = .ok analysis) ↔ ∃ linkage, unit.link = .ok linkage := by
  cases linked : unit.link with
  | error => simp [analyze, parsed, Program.ofUnit, linked, Except.mapError, bind, Except.bind]
  | ok => simp [analyze_of_link parsed linked]

theorem exists_program_of_analyze (parsed : CompUnit.ofText file text = .ok unit)
    (analyzed : analyze file text settings table = .ok analysis) : ∃ linkage, unit.link = .ok linkage ∧ analysis =
      ⟨some ⟨unit, linkage⟩, Program.check ⟨unit, linkage⟩ Rulebook.standard settings table⟩ := by
  obtain ⟨linkage, linked⟩ := (analyze_isOk_iff_link parsed).mp ⟨analysis, analyzed⟩
  rw [analyze_of_link parsed linked] at analyzed
  exact ⟨linkage, linked, (Except.ok.inj analyzed).symm⟩

theorem analyze_isOk_iff :
    (∃ analysis, analyze file text settings table = .ok analysis) ↔
      ¬ ∃ unit, CompUnit.ofText file text = .ok unit ∧ (Node.unit unit).Overlong := by
  cases parsed : CompUnit.ofText file text with
  | error => simp [analyze, parsed]
  | ok =>
    rw [analyze_isOk_iff_link parsed, CompUnit.link_isOk_iff (CompUnit.aligned_of_ofText parsed)]
    simp [Node.Overlong]

theorem analyze_within (analyzed : analyze file text settings table = .ok analysis) :
    ∀ diagnostic ∈ analysis.diagnostics, ∃ span, diagnostic.span? = some span ∧ span.Within text := by
  cases parsed : CompUnit.ofText file text with
  | error =>
    simp only [analyze, parsed] at analyzed
    obtain rfl := Except.ok.inj analyzed
    intro diagnostic member
    obtain ⟨report, isReport, rfl⟩ := mem_map.mp member
    refine ⟨report.span, ?_, CompUnit.within_of_ofText_error parsed isReport⟩
    rw [CheckSettings.present_span?]
    rfl
  | ok =>
    obtain ⟨_, linked, rfl⟩ := exists_program_of_analyze parsed analyzed
    intro diagnostic member
    obtain ⟨report, isReport, rfl⟩ := mem_map.mp member
    refine ⟨report.span, ?_, Program.within_of_violations parsed linked isReport⟩
    rw [CheckSettings.present_span?]
    rfl

end Analyses

/-! ## Notices -/

theorem exists_notice
    (analyzed : analyze file text settings table = .ok analysis) {diagnostic : Diagnostic}
    (member : diagnostic ∈ analysis.diagnostics) (short : (text.length : Int) < Coordinate.limit)
    (named : Notice.sourceName source = .ok name) (uri : String) :
    ∃ notice, Notice.ofDiagnostic source diagnostic = .ok notice ∧
      notice.range.start.le notice.range.stop = true ∧ Document.Holds { uri, text } notice.range.start := by
  obtain ⟨_, found, within⟩ := analyze_within analyzed diagnostic member
  obtain ⟨_, ranged, ordered, holds⟩ := within.exists_toRange short uri
  simp only [Notice.ofDiagnostic, found, ranged, named]
  exact ⟨_, rfl, ordered, holds⟩

namespace Document

private theorem exists_mapM {α β : Type} {convert : α → Except Fault β} {kind : β → Prop} {items : List α}
    (each : ∀ item ∈ items, ∃ result, convert item = .ok result ∧ kind result) :
    ∃ results, items.mapM convert = .ok results ∧ ∀ result ∈ results, kind result := by
  induction items with
  | nil => exact ⟨[], rfl, by simp⟩
  | cons _ _ ih =>
    obtain ⟨⟨result, converted, isKind⟩, rest⟩ := forall_mem_cons.mp each
    obtain ⟨results, others, all⟩ := ih rest
    refine ⟨result :: results, ?_, forall_mem_cons.mpr ⟨isKind, all⟩⟩
    rw [mapM_cons, converted, others]
    rfl

theorem exists_notices {document : Document}
    (short : (document.text.length : Int) < Coordinate.limit) (named : Notice.sourceName source = .ok name)
    (analyzed : SysYTools.analyze document.uri document.text settings table = .ok analysis) :
    ∃ notices, analysis.diagnostics.mapM (Notice.ofDiagnostic source) = .ok notices ∧
      ∀ notice ∈ notices, notice.range.start.le notice.range.stop = true ∧ document.Holds notice.range.start :=
  exists_mapM fun _ member => exists_notice analyzed member short named document.uri

/-- The analysis of a document has an answer. It is a single notice about an internal failure just where the
text can be read and a dimension in it has too many digits. Otherwise each notice has a range that does not
stop before it starts, and it starts in the document. -/
theorem analyze_total (document : Document) (settings : CheckSettings)
    (short : (document.text.length : Int) < Coordinate.limit) :
    ∃ result notices, document.analyze { check := settings } = .ok (result, notices) ∧
      (result = none ↔ ∃ unit, CompUnit.ofText document.uri document.text = .ok unit ∧ (Node.unit unit).Overlong) ∧
      (result = none → ∃ fault : Fault, notices =
        [{ range := .origin, severity := some .error, code := none, source := some "sysy"
           message := s!"[internal] analysis error: {fault.message}", data := .null }]) ∧
      (result ≠ none → ∀ notice ∈ notices, notice.range.start.le notice.range.stop = true ∧
        document.Holds notice.range.start) := by
  have total := @analyze_isOk_iff document.uri document.text settings .standard
  cases analyzed : SysYTools.analyze document.uri document.text settings .standard with
  | error fault =>
    have broken := not_not.mp (total.not.mp (by simp [analyzed]))
    refine ⟨none, _, ?_, ⟨fun _ => broken, fun _ => rfl⟩, fun _ => ⟨fault, rfl⟩, by simp⟩
    simp only [Document.analyze, analyzed]
    rfl
  | ok analysis =>
    have sound := total.mp ⟨analysis, analyzed⟩
    have named : Notice.sourceName (.text "sysy") = .ok (some "sysy") := rfl
    obtain ⟨notices, converted, all⟩ := exists_notices short named analyzed
    refine ⟨some analysis, notices, ?_, by simpa using sound, by simp, fun _ => all⟩
    simp only [Document.analyze, analyzed, converted]
    rfl

/-- A function that is not closed: its problem stands at the end of the text, in an empty last line. -/
theorem analyze_total_unclosed :
    (("int f()\x7breturn 1;\n".toList.length : Int) < Coordinate.limit) ∧
      ∃ analysis notices,
        Document.analyze ⟨"t.sy", "int f()\x7breturn 1;\n".toList⟩ {} = .ok (some analysis, notices) ∧
          ∀ notice ∈ notices, notice.range.start.le notice.range.stop = true ∧
            Document.Holds ⟨"t.sy", "int f()\x7breturn 1;\n".toList⟩ notice.range.start := by
  have short : ("int f()\x7breturn 1;\n".toList.length : Int) < Coordinate.limit := by
    rw [String.toList_ofList]
    decide
  have unread : (CompUnit.ofText "t.sy" "int f()\x7breturn 1;\n".toList).toOption = none := by
    rw [String.toList_ofList]
    exact Option.isNone_iff_eq_none.mp (by decide +kernel)
  obtain ⟨result, notices, analyzed, broken, -, all⟩ :=
    analyze_total ⟨"t.sy", "int f()\x7breturn 1;\n".toList⟩ {} short
  have some : result ≠ none := by
    intro none
    obtain ⟨_, parsed, -⟩ := broken.mp none
    rw [parsed] at unread
    cases unread
  obtain ⟨analysis, rfl⟩ := Option.ne_none_iff_exists'.mp some
  exact ⟨short, analysis, notices, analyzed, all some⟩

end Document

end SysYTools
