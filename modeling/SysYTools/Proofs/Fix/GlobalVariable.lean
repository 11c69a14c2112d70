import SysYTools.Fix.Names
import SysYTools.Proofs.Editor.Notice
import SysYTools.Proofs.Rule.Globals
import SysYTools.Proofs.Token.Insertion
import SysYTools.Proofs.Token.Spacing

/-!
The fix that declares an undefined variable at the start of a document. The text after it can be read, all places
in it are two lines further down, and the variable is defined at all uses of its name, unless a function has that
name.
-/

namespace SysYTools

open List Lexis Grammar

variable {settings : CheckSettings} {table : ExplanationTable}
variable {analysis : Analysis} {file name : String} {indices : List Expr} {reference : Reference} {span : Span}
  {text : Text} {unit : CompUnit}

/-! ## The declaration -/

theorem Grammar.Target.exists_name {tokens : List Token} (derived : Target tokens reference indices span) :
    ∃ name ∈ tokens, name.kind = .identifier ∧ name.value = reference.name := by
  induction derived with
  | plain named => exact ⟨_, mem_cons_self, named, rfl⟩
  | paren _ _ _ ih =>
    obtain ⟨name, member, named, same⟩ := ih
    exact ⟨name, mem_cons_of_mem _ (mem_append_left _ member), named, same⟩

theorem CompUnit.mem_pieces_of_lval (parsed : CompUnit.ofText file text = .ok unit)
    (member : Node.expr (.lval reference indices span) ∈ (Node.unit unit).walk) :
    (Lexeme.token .identifier, reference.name.toList) ∈ pieces text := by
  obtain ⟨-, derived, -⟩ := Fix.words_of_ofText parsed
  rcases derived.of_mem_walk member with same | ⟨_, within, derived⟩
  · cases same
  · cases derived with
    | expr derived =>
      obtain ⟨_, isName, named, same⟩ := derived.target.exists_name
      have piece := mem_of_mem_wordsAt (within.subset isName)
      rwa [named, same] at piece

def declarationText (name : Text) : Text := "int ".toList ++ name ++ " = 0;\n\n".toList

def declarationPieces (name : Text) : List (Lexeme × Text) :=
  [(.token .intKeyword, "int".toList), (.gap, [' ']), (.token .identifier, name), (.gap, [' ']),
    (.token .assign, ['=']), (.gap, [' ']), (.token .integerLiteral, ['0']), (.token .semicolon, [';']),
    (.gap, ['\n']), (.gap, ['\n'])]

theorem written_declarationPieces (name : Text) : written (declarationPieces name) = declarationText name := by
  simp [declarationPieces, declarationText, written]

theorem pieces_declarationText {name : Text} (isName : (Lexeme.token .identifier, name) ∈ pieces text)
    (rest : Text) : pieces (declarationText name ++ rest) = declarationPieces name ++ pieces rest := by
  have typePieces : pieces "int".toList = [(.token .intKeyword, "int".toList)] := by cbv
  have signPieces : pieces ['='] = [(.token .assign, ['='])] := by cbv
  have zeroPieces : pieces ['0', ';'] = [(.token .integerLiteral, ['0']), (.token .semicolon, [';'])] := by cbv
  have namePieces := pieces_value isName
  have shape : declarationText name ++ rest =
      "int".toList ++ ' ' :: (name ++ ' ' :: (['='] ++ ' ' :: (['0', ';'] ++ '\n' :: '\n' :: rest))) := by
    simp [declarationText]
  have zero : pieces (['0', ';'] ++ '\n' :: '\n' :: rest) = pieces ['0', ';'] ++ pieces ('\n' :: '\n' :: rest) := by
    refine pieces_append ?_ (.of_isDelimiter rfl) ?_
    · intro piece member
      rw [zeroPieces] at member
      simp only [mem_cons, not_mem_nil, or_false] at member
      rcases member with rfl | rfl <;> exact .inr ⟨_, rfl⟩
    · intro last ends
      rw [zeroPieces] at ends
      cases ends
      exact .of_isDelimiter rfl (by decide)
  have solid : ∀ {value : Text} {kind : TokenKind}, pieces value = [(.token kind, value)] → Solid value := by
    intro value kind cut piece member
    rw [cut] at member
    rw [mem_singleton.mp member]
    exact ⟨kind, rfl⟩
  have feeds : pieces ('\n' :: '\n' :: rest) = (.gap, ['\n']) :: (.gap, ['\n']) :: pieces rest := by
    rw [pieces_cons_blank rfl, pieces_cons_blank rfl]
  rw [shape, (solid typePieces).pieces_append_blank, (solid namePieces).pieces_append_blank,
    (solid signPieces).pieces_append_blank, zero, feeds, typePieces, namePieces, signPieces, zeroPieces]
  rfl

theorem exists_declaration (file : String) (name : Text) :
    ∃ (decl : Decl) (var : VarDef), Declaring (wordsAt file [] (declarationPieces name)) decl ∧
      decl.defs = [var] ∧ var.name = String.ofList name ∧ var.dims = [] ∧
      ∃ value place, var.init = some (.expr (.intLit value place)) := by
  have zero : ∀ token : Token, token.kind = .integerLiteral →
      Initializer [token] (.expr (.intLit token.value token.span)) := fun token isLiteral =>
    .expr ((ExprAt.intLit isLiteral).loosen (by decide) (by decide))
  have definition : ∀ name sign token : Token, name.kind = .identifier → sign.kind = .assign →
      token.kind = .integerLiteral → Definition [name, sign, token]
        { name := name.value, dims := [], init := some (.expr (.intLit token.value token.span))
          span := name.span.through token.span, nameSpan := name.span } :=
    fun name sign token named signs isLiteral =>
      .initialized named (@Indices.nil name.span) signs (zero token isLiteral)
  exact ⟨_, _, .plain rfl (.single (definition _ _ _ rfl rfl rfl)) rfl, rfl, rfl, rfl, _, _, rfl⟩

theorem lowered_declarationText {name : Text} (none : '\n' ∉ name) (more : Text) :
    lowered 2 (placeAfter more) = placeAfter (declarationText name ++ more) := by
  have whole : (declarationText name).lastLine = [] := by
    rw [show declarationText name = ("int ".toList ++ name ++ " = 0;\n".toList) ++ ['\n'] by simp [declarationText]]
    exact Text.lastLine_append_feed _
  have feeds : (declarationText name).count '\n' = 2 := by
    rw [declarationText, count_append, count_append, count_eq_zero.mpr none]
    rfl
  rw [← lowered_placeAfter whole more, feeds]
  rfl

theorem CompUnit.exists_prefixed (parsed : CompUnit.ofText file text = .ok unit) {name : Text}
    (isName : (Lexeme.token .identifier, name) ∈ pieces text) :
    ∃ unit' decl var, CompUnit.ofText file (declarationText name ++ text) = .ok unit' ∧
      CompUnit.Prefixed (lowered 2) unit unit' decl var ∧ var.name = String.ofList name := by
  obtain ⟨clean, derived, nearest⟩ := Fix.words_of_ofText parsed
  obtain ⟨decl, var, declares, defs, named, dims, init⟩ := exists_declaration file name
  have plain : '\n' ∉ name := (isToken_of_mem_pieces isName).no_feed
  have words : wordsAt file [] (declarationPieces name ++ pieces text) =
      wordsAt file [] (declarationPieces name) ++ (wordsAt file [] (pieces text)).map (·.along (lowered 2)) := by
    have behind := @along_wordsAt [] (declarationText name) (lowered 2) (lowered_declarationText plain) file []
      (pieces text) (onLine_pieces text)
    rw [wordsAt_append, written_declarationPieces, nil_append]
    simpa using behind.symm
  have whole : TopLevel (wordsAt file [] (declarationPieces name ++ pieces text))
      (.decl decl :: unit.items.map (·.relocate (.along (lowered 2)))) := by
    rw [words]
    exact .decl declares derived.along
  have sound : ∀ piece ∈ declarationPieces name ++ pieces text, Sound piece := by
    intro piece member
    rcases mem_append.mp member with own | old
    · simp only [declarationPieces, mem_cons, not_mem_nil, or_false] at own
      rcases own with rfl | rfl | rfl | rfl | rfl | rfl | rfl | rfl | rfl | rfl <;>
        first | exact .inl rfl | exact .inr ⟨_, rfl⟩
    · exact clean piece old
  have nearest' : ∀ item ∈ Item.decl decl :: unit.items.map (·.relocate (.along (lowered 2))),
      item.NearestElse := by
    refine forall_mem_cons.mpr ⟨trivial, fun item member => ?_⟩
    obtain ⟨old, isOld, rfl⟩ := mem_map.mp member
    exact old.nearestElse_relocate.mpr (nearest old isOld)
  obtain ⟨unit', parsed', items⟩ := CompUnit.exists_ofText (pieces_declarationText isName text) sound whole nearest'
  exact ⟨unit', decl, var, parsed', ⟨items, defs, dims, init⟩, named⟩

/-! ## Diagnostics -/

def Span.down (lines : Int) (span : Span) : Span :=
  { span with startLine := span.startLine + lines, endLine := span.endLine + lines }

def Diagnostic.down (lines : Int) (diagnostic : Diagnostic) : Diagnostic :=
  { diagnostic with labels := diagnostic.labels.map fun label => { label with span := label.span.down lines } }

/-- A diagnostic says that a variable is used without being defined. -/
def Diagnostic.isUndefinedVariable (name : String) (diagnostic : Diagnostic) : Bool :=
  diagnostic.code == .undefinedVariable &&
    match diagnostic.data.lookup "variableName" with
    | some (.text given) => given == name
    | _ => false

section Presented

variable (settings : CheckSettings) (table : ExplanationTable)

theorem CheckSettings.present_down (lines : Int) (report : Report) :
    settings.present table (.ofReport (report.relocate (.along (lowered lines)))) =
      (settings.present table (.ofReport report)).down lines :=
  settings.present_along table (lowered lines) report

theorem CheckSettings.isUndefinedVariable_present (name : String) (report : Report) :
    (settings.present table (.ofReport report)).isUndefinedVariable name =
      (report.problem == .undefinedVariable name) := by
  obtain ⟨_, same⟩ := settings.present_eq table (.ofReport report)
  rw [same, Bool.eq_iff_iff]
  obtain ⟨problem, _⟩ := report
  cases problem <;> simp [Diagnostic.isUndefinedVariable, Diagnostic.ofReport, Problem.code, Problem.payload]

end Presented

section

variable (parsed : CompUnit.ofText file text = .ok unit) (analyzed : analyze file text settings table = .ok analysis)
include parsed analyzed

theorem analyze_prefixed
    (isName : (Lexeme.token .identifier, name.toList) ∈ pieces text) :
    ∃ unit' analysis', CompUnit.ofText file (declarationText name.toList ++ text) = .ok unit' ∧
      analyze file (declarationText name.toList ++ text) settings table = .ok analysis' ∧ analysis'.diagnostics =
        (if (unit.functions ++ Library.functions).any (·.name == name) then analysis.diagnostics
          else analysis.diagnostics.filter (!·.isUndefinedVariable name)).map (·.down 2) := by
  obtain ⟨_, linked, rfl⟩ := exists_program_of_analyze parsed analyzed
  obtain ⟨unit', _, var, parsed', fronted, named⟩ := CompUnit.exists_prefixed parsed isName
  have aligned := CompUnit.aligned_of_ofText parsed
  have aligned' := CompUnit.aligned_of_ofText parsed'
  obtain ⟨_, linked'⟩ := CompUnit.exists_link_of_carried fronted.carried aligned aligned' linked
  have both := CompUnit.Moves.of_carried fronted.carried aligned aligned' linked (lowered_strictMono 2)
    fronted.promises linked'
  refine ⟨unit', _, parsed', analyze_of_link parsed' linked', ?_⟩
  have keeps : unit.keeps var.name = fun report =>
      (unit.functions ++ Library.functions).any (·.name == name) ||
        !(settings.present table (.ofReport report)).isUndefinedVariable name := by
    funext report
    rw [settings.isUndefinedVariable_present, CompUnit.keeps, named, String.ofList_toList]
    rfl
  simp only [Program.check, fronted.violations_eq both settings, map_map, Function.comp_def,
    settings.present_down table, keeps]
  split
  next callable => simp [callable, Function.comp_def]
  next free => simp [free, filter_map, Function.comp_def]

theorem exists_report_of_undefined
    {diagnostic : Diagnostic} (member : diagnostic ∈ analysis.diagnostics)
    (missing : diagnostic.isUndefinedVariable name = true) :
    ∃ message span, diagnostic = { Diagnostic.ofReport ⟨.undefinedVariable name, span⟩ with message } ∧
      (Lexeme.token .identifier, name.toList) ∈ pieces text := by
  obtain ⟨_, linked, rfl⟩ := exists_program_of_analyze parsed analyzed
  obtain ⟨report, isReport, rfl⟩ := mem_map.mp member
  rw [settings.isUndefinedVariable_present, beq_iff_eq] at missing
  obtain ⟨message, same⟩ := settings.present_eq table (.ofReport report)
  obtain ⟨_, span⟩ := report
  cases missing
  obtain ⟨_, isSite, isReport⟩ := mem_flatMap.mp isReport
  obtain ⟨reference, indices, place, shape, rfl, -⟩ := settings.lval_of_undefinedVariable isReport rfl
  have part : Node.expr (.lval reference indices place) ∈ (Node.unit unit).walk := by
    rw [← shape]
    exact mem_map_of_mem isSite
  exact ⟨message, span, same, CompUnit.mem_pieces_of_lval parsed part⟩

end

namespace Fix

theorem declareGlobalVariable_resolves {message : String} (nonempty : name ≠ "") {source : String}
    {notice : Notice} (shown : Notice.ofDiagnostic (.text source)
      { Diagnostic.ofReport ⟨.undefinedVariable name, span⟩ with message } = .ok notice) (document : Document)
    (number : Nat) :
    ∃ action, declareGlobalVariable { document, notice, number } = .ok (some action) ∧
      action.effect = .edits document.uri [.insert (lineStart 0) (declarationText name.toList)] := by
  obtain ⟨-, data⟩ := notice_of_report shown
  have found : variableName? { document, notice, number } = some name := by
    simp [variableName?, Request.name?, Request.given, Request.payload, data, Problem.payload, Value.field?,
      Value.isGiven, Value.display, nonempty]
  have text : s!"int {name} = 0;\n\n".toList = declarationText name.toList := by simp [declarationText, toString]
  refine ⟨_, by rw [declareGlobalVariable, found, Option.map_some], ?_⟩
  rw [text]
  rfl

/-- Declaring an undefined variable at the start of a document fixes its uses and nothing else. The text can be
read, and its diagnostics are those of before, two lines further down. Those about the name are gone if no function of
the program or the library has the name, and else none is. -/
theorem declareGlobalVariable_settles {file : String} {text : Text} {unit : CompUnit}
    (parsed : CompUnit.ofText file text = .ok unit) {settings : CheckSettings} {table : ExplanationTable}
    {analysis : Analysis} (analyzed : analyze file text settings table = .ok analysis) {diagnostic : Diagnostic}
    (member : diagnostic ∈ analysis.diagnostics) {name : String}
    (missing : diagnostic.isUndefinedVariable name = true) (source uri : String) (number : Nat) :
    ((text.length : Int) < Coordinate.limit → ∃ notice, Notice.ofDiagnostic (.text source) diagnostic = .ok notice) ∧
    ∀ notice, Notice.ofDiagnostic (.text source) diagnostic = .ok notice →
      ∃ action edits unit' analysis',
        declareGlobalVariable { document := { uri, text }, notice, number } = .ok (some action) ∧
        action.effect = .edits uri edits ∧
        CompUnit.ofText file (Edit.applyAll text edits) = .ok unit' ∧
        analyze file (Edit.applyAll text edits) settings table = .ok analysis' ∧
        analysis'.diagnostics =
          (if (unit.functions ++ Library.functions).any (·.name == name) then analysis.diagnostics
            else analysis.diagnostics.filter (!·.isUndefinedVariable name)).map (·.down 2) := by
  obtain ⟨_, _, rfl, isName⟩ := exists_report_of_undefined parsed analyzed member missing
  have nonempty : name ≠ "" := by
    rintro rfl
    exact (isToken_of_mem_pieces isName).ne_nil rfl
  constructor
  · intro short
    exact (exists_notice analyzed member short rfl uri).imp fun _ shown => shown.1
  · intro notice shown
    obtain ⟨action, runs, effect⟩ := declareGlobalVariable_resolves nonempty shown { uri, text } number
    obtain ⟨unit', analysis', parsed', analyzed', same⟩ := analyze_prefixed parsed analyzed isName
    have applied : Edit.applyAll text [.insert (lineStart 0) (declarationText name.toList)] =
        declarationText name.toList ++ text :=
      Edit.applyAll_insert [] (declarationText name.toList) text
    exact ⟨action, _, unit', analysis', runs, effect, applied ▸ parsed', applied ▸ analyzed', same⟩

private def earlyUse : Text := "int f()\x7bint y=x;return x;\x7dint x;".toList

/-- A global variable is not defined before its declaration, which the fix makes up for. -/
theorem declareGlobalVariable_settles_early :
    ∃ analysis diagnostic notice action edits analysis', analyze "t.sy" earlyUse {} ⟨[]⟩ = .ok analysis ∧
      diagnostic ∈ analysis.diagnostics ∧ diagnostic.isUndefinedVariable "x" = true ∧
      Notice.ofDiagnostic (.text "sysy") diagnostic = .ok notice ∧
      declareGlobalVariable ⟨⟨"t.sy", earlyUse⟩, notice, 0⟩ = .ok (some action) ∧ action.effect = .edits "t.sy" edits ∧
      analyze "t.sy" (Edit.applyAll earlyUse edits) {} ⟨[]⟩ = .ok analysis' ∧
      analysis'.diagnostics.map (fun found => (found.code, found.span?)) =
        [(.unusedVariable, some ⟨"t.sy", 3, 13, 3, 13⟩)] := by
  have free : (CompUnit.ofText "t.sy" earlyUse).toOption.map (fun unit =>
      (unit.functions ++ Library.functions).any (·.name == "x")) = some false := by
    decide +kernel
  have found : (analyze "t.sy" earlyUse {} ⟨[]⟩).toOption.map (fun analysis =>
      (analysis.diagnostics.any (·.isUndefinedVariable "x"),
        ((analysis.diagnostics.filter (!·.isUndefinedVariable "x")).map (·.down 2)).map fun found =>
          (found.code, found.span?))) =
      some (true, [(.unusedVariable, some ⟨"t.sy", 3, 13, 3, 13⟩)]) := by
    decide +kernel
  obtain ⟨_, parsed, free⟩ := Except.exists_of_toOption free
  obtain ⟨analysis, analyzed, found⟩ := Except.exists_of_toOption found
  obtain ⟨isFound, left⟩ := Prod.mk.inj found
  obtain ⟨diagnostic, member, missing⟩ := any_eq_true.mp isFound
  obtain ⟨exists_notice, settles⟩ := declareGlobalVariable_settles parsed analyzed member missing "sysy" "t.sy" 0
  obtain ⟨notice, shown⟩ := exists_notice (by decide)
  obtain ⟨action, edits, _, analysis', runs, effect, -, analyzed', same⟩ := settles notice shown
  rw [free, if_neg (by decide)] at same
  exact ⟨analysis, diagnostic, notice, action, edits, analysis', analyzed, member, missing, shown, runs, effect,
    analyzed', by rw [same]; exact left⟩

end Fix

end SysYTools
