import SysYTools.Proofs.Editor.Enrichment

/-!
The table of explanations and the rules. The message of a broken rule can hold no key of another category, whatever
names and numbers stand in it, and it holds a key of its own.
-/

namespace SysYTools

open List ExplanationTable

variable {problem : Problem} {unit : CompUnit} {report : Report}

theorem Template.Fills.prefix_of_letters {template : Template} {part text : Text} (fills : template.Fills text)
    (letters : part.map some <+: template) : part <+: text := by
  induction part generalizing template text with
  | nil => exact nil_prefix
  | cons _ _ ih =>
    obtain ⟨_, rfl⟩ := letters
    cases fills with
    | letter fills => exact cons_prefix_cons.mpr ⟨rfl, ih fills (prefix_append _ _)⟩

/-- The run in a pattern of the table can be any word, or anything without a line feed. -/
def ExplanationTable.PatternShape.Takes (shape : PatternShape) (run : Text) : Prop :=
  match shape.isWord with
  | true => run ≠ [] ∧ ∀ c ∈ run, isWordChar c = true
  | false => '\n' ∉ run

theorem ExplanationTable.PatternShape.mem_rests (shape : PatternShape) {run : Text}
    (takes : shape.Takes run) (rest : Text) : rest ∈ shape.piece.rests (run ++ rest) := by
  obtain ⟨_, _, isWord, _⟩ := shape
  cases isWord with
  | false =>
    refine Pattern.Class.mem_restsAfterRun (fun c member => ?_) rest
    exact bne_iff_ne.mpr (ne_of_mem_of_not_mem member takes)
  | true =>
    obtain ⟨c, more, rfl⟩ := exists_cons_of_ne_nil takes.1
    obtain ⟨first, others⟩ := forall_mem_cons.mp takes.2
    have one : more ++ rest ∈ Pattern.Class.word.restsAfterOne (c :: (more ++ rest)) := by
      simp [Pattern.Class.restsAfterOne, Pattern.Class.has, first]
    exact mem_flatMap.mpr ⟨more ++ rest, one, Pattern.Class.mem_restsAfterRun others rest⟩

namespace Problem

/-- A problem of a rule. A function whose return is at fault has the name of a type. -/
def IsRule : Problem → Prop
  | .missingReturn _ type | .emptyReturn _ type => ∃ base : BaseType, type = base.name
  | problem => problem.category ≠ .other

/-- The template of the message of a rule. The type of a function is written out in it, since `type mismatch`
is a key and a type of that name would make the message hold it. -/
def ruleTemplate : Problem → Template
  | .missingReturn name type => .ofString (message (.missingReturn name type))
  | .emptyReturn name type => .ofString (message (.emptyReturn name type))
  | problem => problem.template

theorem ruleTemplate_fills (worded : problem.Worded) : problem.ruleTemplate.Fills problem.message.toList := by
  unfold ruleTemplate
  split
  · exact .ofString _
  · exact .ofString _
  · exact fills worded.solid

/-- Problems of rules, one for each template. -/
def samples : List Problem :=
  [.duplicateDeclaration "", .undefinedVariable "", .unusedVariable "", .arrayOverflow "" 0 0,
    .initializerShape "" true, .initializerShape "" false, .undefinedFunction "", .argumentCount "" 0 0,
    .voidValue "", .missingReturn "" "int", .missingReturn "" "float", .emptyReturn "" "int",
    .emptyReturn "" "float", .voidReturnValue "", .duplicateFunction "", .strayJump .breakLoop,
    .strayJump .continueLoop]

theorem exists_sample (rule : problem.IsRule) : ∃ sample ∈ samples, sample.ruleTemplate = problem.ruleTemplate ∧
    sample.category = problem.category ∧ sample.code = problem.code := by
  cases problem with
  | unterminatedComment | hexWithoutDigits | invalidOctal | unexpectedCharacter | expected | voidVariable
  | unexpectedInExpression | badAssignmentTarget | missingSemicolon | missingBracket => exact absurd rfl rule
  | strayJump jump => exact ⟨.strayJump jump, by cases jump <;> simp [samples], rfl, rfl, rfl⟩
  | initializerShape _ wantsArray =>
    exact ⟨.initializerShape "" wantsArray, by cases wantsArray <;> simp [samples], rfl, rfl, rfl⟩
  | missingReturn =>
    obtain ⟨base, rfl⟩ := rule
    exact ⟨.missingReturn "" base.name, by cases base <;> simp [samples, BaseType.name], rfl, rfl, rfl⟩
  | emptyReturn =>
    obtain ⟨base, rfl⟩ := rule
    exact ⟨.emptyReturn "" base.name, by cases base <;> simp [samples, BaseType.name], rfl, rfl, rfl⟩
  | duplicateDeclaration => exact ⟨.duplicateDeclaration "", by simp [samples], rfl, rfl, rfl⟩
  | undefinedVariable => exact ⟨.undefinedVariable "", by simp [samples], rfl, rfl, rfl⟩
  | arrayOverflow => exact ⟨.arrayOverflow "" 0 0, by simp [samples], rfl, rfl, rfl⟩
  | unusedVariable => exact ⟨.unusedVariable "", by simp [samples], rfl, rfl, rfl⟩
  | undefinedFunction => exact ⟨.undefinedFunction "", by simp [samples], rfl, rfl, rfl⟩
  | argumentCount => exact ⟨.argumentCount "" 0 0, by simp [samples], rfl, rfl, rfl⟩
  | voidValue => exact ⟨.voidValue "", by simp [samples], rfl, rfl, rfl⟩
  | voidReturnValue => exact ⟨.voidReturnValue "", by simp [samples], rfl, rfl, rfl⟩
  | duplicateFunction => exact ⟨.duplicateFunction "", by simp [samples], rfl, rfl, rfl⟩

theorem category_of_mayHold_sample : ∀ rule ∈ samples.map (fun sample => (sample.category, sample.ruleTemplate)),
    ∀ key ∈ ExplanationTable.keys, rule.2.mayHold key.2 = true → key.1 = rule.1 := by
  dsimp only [keys_eq, standard, samples]
  simp only [map_cons, map_nil]
  dsimp only [ruleTemplate, template, message, category, Template.ofString, Jump.keyword, shapeName, toString]
  simp only [String.toList_append]
  repeat rw [String.toList_ofList]
  intro rule member
  repeat
    rcases mem_cons.mp member with rfl | member
    · decide +kernel
  cases member

theorem category_of_hasPart (rule : problem.IsRule) (worded : problem.Worded) {key : Category × Text}
    (isKey : key ∈ ExplanationTable.keys) (stands : Text.hasPart problem.message.toList key.2 = true) :
    key.1 = problem.category := by
  obtain ⟨_, isSample, template, category, -⟩ := exists_sample rule
  have holds := (ruleTemplate_fills worded).mayHold stands
  rw [← template] at holds
  rw [← category]
  exact category_of_mayHold_sample _ (mem_map_of_mem isSample) key isKey holds

theorem find_ne_none_of_shape {shape : PatternShape} (isShape : shape ∈ patternShapes) {message : String}
    {run after : Text} (split : message.toList = shape.opening ++ (run ++ (shape.ending ++ after)))
    (takes : shape.Takes run) : standard.find message ≠ .ok none := by
  intro unfound
  have listed : (shape.category, shape.written) ∈ standard.entries.filterMap
      fun entry => (patternText? entry.1).map (entry.2.category, ·) := by
    rw [standard_patterns]
    exact mem_map_of_mem isShape
  obtain ⟨entry, member, found⟩ := mem_filterMap.mp listed
  obtain ⟨_, quoted, same⟩ := Option.map_eq_some_iff.mp found
  obtain ⟨-, rfl⟩ := Prod.mk.inj same
  rcases find_standard_cases message with ⟨-, absent⟩ | ⟨_, _, other, _⟩
  · have occurs := (absent entry member).2 _ quoted _ (ofText_of_mem_patternShapes shape isShape)
    rw [split, PatternShape.pattern, Pattern.occursIn_of_run (shape.mem_rests takes _)] at occurs
    cases occurs
  · rw [unfound] at other
    cases other

theorem find_ne_none_of_letters {entry : String × Explanation} (member : entry ∈ standard.entries)
    {template : Template} {message : String} (fills : template.Fills message.toList)
    (letters : entry.1.toList.map some <+: template) : standard.find message ≠ .ok none := by
  intro unfound
  have stands : Text.hasPart message.toList entry.1.toList = true :=
    Text.hasPart_iff.mpr (fills.prefix_of_letters letters).isInfix
  rcases find_standard_cases message with ⟨-, absent⟩ | ⟨_, _, other, _⟩
  · rw [(absent entry member).1] at stands
    cases stands
  · rw [unfound] at other
    cases other

theorem letters_of_sample : ∀ rule ∈ samples.map (fun sample => (sample.code, sample.ruleTemplate)),
    rule.1 ∈ [Code.arraySizeOverflow, .duplicateFunction, .missingReturn, .emptyReturn] ∨
      ∃ entry ∈ standard.entries, entry.1.toList.map some <+: rule.2 := by
  have held : ∀ rule ∈ samples.map (fun sample => (sample.code, sample.ruleTemplate)),
      rule.1 ∈ [Code.arraySizeOverflow, .duplicateFunction, .missingReturn, .emptyReturn] ∨
        ∃ key ∈ standard.entries.map (·.1.toList), key.map some <+: rule.2 := by
    dsimp only [standard, samples]
    simp only [map_cons, map_nil]
    dsimp only [ruleTemplate, template, message, code, Template.ofString, Jump.keyword, shapeName, toString]
    simp only [String.toList_append]
    repeat rw [String.toList_ofList]
    decide
  simpa using held

theorem isWord_typeName (type : BaseType) : type.name.toList ≠ [] ∧ ∀ c ∈ type.name.toList, isWordChar c = true := by
  have named : type.name.toList ≠ [] ∧ ∀ c ∈ type.name.toList, Lexeme.isNameChar c = true := by
    cases type <;> simp [BaseType.name, Lexeme.isNameChar, isNameStart]
  exact ⟨named.1, fun c member => Lexis.isWordChar_of_isNameChar (named.2 c member)⟩

theorem find_ne_none (rule : problem.IsRule) (worded : problem.Worded) : standard.find problem.message ≠ .ok none := by
  obtain ⟨_, isSample, template, -, code⟩ := exists_sample rule
  rcases letters_of_sample _ (mem_map_of_mem isSample) with isPattern | ⟨_, member, letters⟩
  · rw [code] at isPattern
    cases problem with
    | arrayOverflow name =>
      have takes : PatternShape.arrayOverflow.Takes name.toList := (worded.words name mem_cons_self).2.2
      refine @find_ne_none_of_shape _ (.head _) _ _ ['.'] ?_ takes
      change ("array " ++ name ++ " has more initializer elements than the array size.").toList = _
      rw [String.toList_append, String.toList_append, append_assoc, PatternShape.arrayOverflow]
      repeat rw [String.toList_ofList]
      rfl
    | duplicateFunction name =>
      have takes : PatternShape.duplicateFunction.Takes ("'" ++ name ++ "'").toList := by
        change '\n' ∉ _
        simpa using (worded.words name mem_cons_self).2.2
      refine @find_ne_none_of_shape _ (.tail _ (.head _)) _ _ ['.'] ?_ takes
      change ("function name '" ++ name ++ "' is already defined.").toList = _
      simp only [String.toList_append, append_assoc, PatternShape.duplicateFunction]
      repeat rw [String.toList_ofList]
      rfl
    | missingReturn _ type =>
      obtain ⟨base, rfl⟩ := rule
      refine @find_ne_none_of_shape .missingReturn (.tail _ (.tail _ (.head _))) _ _ ['.'] ?_ (isWord_typeName base)
      change ("function with return type " ++ base.name ++ " is missing a return statement.").toList = _
      rw [String.toList_append, String.toList_append, append_assoc, PatternShape.missingReturn]
      repeat rw [String.toList_ofList]
      rfl
    | emptyReturn _ type =>
      obtain ⟨base, rfl⟩ := rule
      refine @find_ne_none_of_shape .emptyReturn (.tail _ (.tail _ (.tail _ (.head _)))) _ _ ['.'] ?_
        (isWord_typeName base)
      change ("function with return type " ++ base.name ++ " must not return empty.").toList = _
      rw [String.toList_append, String.toList_append, append_assoc, PatternShape.emptyReturn]
      repeat rw [String.toList_ofList]
      rfl
    | _ => simp [Problem.code] at isPattern
  · rw [template] at letters
    exact find_ne_none_of_letters member (ruleTemplate_fills worded) letters

theorem exists_explanation (rule : problem.IsRule) (worded : problem.Worded) :
    ∃ explanation, standard.find problem.message = .ok (some explanation) ∧
      explanation.category = problem.category := by
  rcases find_standard_cases problem.message with ⟨unfound, -⟩ | ⟨entry, -, found, _, isKey, stands⟩
  · exact absurd unfound (find_ne_none rule worded)
  · exact ⟨entry.2, found, category_of_hasPart rule worded isKey stands⟩

end Problem

theorem Breach.isRule {site : Node.Site} {code : Code} (breach : Breach unit site code report) :
    report.problem.IsRule := by
  cases breach with
  | @missingReturn _ type | @emptyReturn _ type => exact ⟨type, rfl⟩
  | _ => simp [Problem.IsRule, Problem.category]

variable {file : String} {text : Text} {settings : CheckSettings} {analysis : Analysis} {plain rich : Value}

theorem exists_rule_of_analyze (isPlain : plain.isGiven = false) (parsed : CompUnit.ofText file text = .ok unit)
    (analyzed : analyze file text (settings.withMessages plain) .standard = .ok analysis)
    {diagnostic : Diagnostic} (member : diagnostic ∈ analysis.diagnostics) :
    ∃ problem : Problem, problem.IsRule ∧ problem.Worded ∧ diagnostic.message = problem.message ∧
      diagnostic.category = problem.category := by
  obtain ⟨_, linked, rfl⟩ := exists_program_of_analyze parsed analyzed
  simp only [Program.check, CheckSettings.present_plain isPlain] at member
  obtain ⟨report, isReport, rfl⟩ := mem_map.mp member
  refine ⟨report.problem, ?_, Program.worded_of_violations parsed linked isReport, rfl, rfl⟩
  rcases Program.cases_of_violations (CompUnit.aligned_of_ofText parsed) linked isReport with
    ⟨_, -, broken⟩ | ⟨_, -, -, rfl⟩
  · exact broken.isRule
  · simp [Problem.IsRule, Problem.category]

/-- The table of explanations agrees with the rules. In a text that can be read, every message without
explanations has an entry in the table, and the category that the table gives it is the one that the rule gave
it. With explanations, every message carries those of its entry. -/
theorem analyze_messages_explained (isPlain : plain.isGiven = false) (isRich : rich.isGiven = true)
    (parsed : CompUnit.ofText file text = .ok unit)
    (analyzed : analyze file text (settings.withMessages plain) .standard = .ok analysis) :
    (∀ diagnostic ∈ analysis.diagnostics, (∃ explanation, standard.find diagnostic.message = .ok (some explanation)) ∧
        standard.categoryOf diagnostic.message = .ok (some diagnostic.category)) ∧
    ∃ explained, analyze file text (settings.withMessages rich) .standard = .ok explained ∧
      List.Forall₂ (fun diagnostic enriched => ∃ explanation,
        standard.find diagnostic.message = .ok (some explanation) ∧
        enriched = { diagnostic with
          message := s!"{diagnostic.message}\n\nDetails: {explanation.details}\nSuggestion: {explanation.suggestion}" })
        analysis.diagnostics explained.diagnostics := by
  have entry : ∀ diagnostic ∈ analysis.diagnostics, diagnostic.message ≠ "" ∧ ∃ explanation,
      standard.find diagnostic.message = .ok (some explanation) ∧ explanation.category = diagnostic.category := by
    intro diagnostic member
    obtain ⟨problem, rule, worded, message, category⟩ := exists_rule_of_analyze isPlain parsed analyzed member
    rw [message, category]
    exact ⟨problem.message_ne_empty, problem.exists_explanation rule worded⟩
  refine ⟨fun diagnostic member => ?_, analysis.explained, ?_, ?_⟩
  · obtain ⟨speaks, explanation, found, category⟩ := entry diagnostic member
    refine ⟨⟨explanation, found⟩, ?_⟩
    simp [categoryOf, speaks, found, category, bind, Except.bind, pure, Except.pure]
  · rw [analyze_explained isRich isPlain, analyzed]
    rfl
  · rw [Analysis.explained, List.forall₂_map_right_iff, List.forall₂_same]
    intro diagnostic member
    obtain ⟨speaks, explanation, found, -⟩ := entry diagnostic member
    refine ⟨explanation, found, ?_⟩
    rw [Diagnostic.explained, enrichSafely, enrich_of_find speaks found]
    rfl

theorem analyze_messages_explained_return :
    Value.isGiven (.bool false) = false ∧ Value.isGiven (.bool true) = true ∧
      ∃ (unit : CompUnit) (analysis explained : Analysis),
        CompUnit.ofText "t.sy" "int f()\x7bint a;\x7d".toList = .ok unit ∧
        analyze "t.sy" "int f()\x7bint a;\x7d".toList (CheckSettings.withMessages {} (.bool false)) .standard =
          .ok analysis ∧ analysis.diagnostics.map (·.code) = [.missingReturn, .unusedVariable] ∧
        (∀ diagnostic ∈ analysis.diagnostics,
          standard.categoryOf diagnostic.message = .ok (some diagnostic.category)) ∧
        analyze "t.sy" "int f()\x7bint a;\x7d".toList (CheckSettings.withMessages {} (.bool true)) .standard =
          .ok explained ∧ explained.diagnostics.length = 2 := by
  have found : (analyze "t.sy" "int f()\x7bint a;\x7d".toList (CheckSettings.withMessages {} (.bool false))
      .standard).toOption.map (·.diagnostics.map (·.code)) = some [.missingReturn, .unusedVariable] := by
    rw [String.toList_ofList]
    decide +kernel
  have read : (CompUnit.ofText "t.sy" "int f()\x7bint a;\x7d".toList).toOption.isSome = true := by
    rw [String.toList_ofList]
    decide +kernel
  obtain ⟨analysis, analyzed, codes⟩ := Except.exists_of_toOption found
  obtain ⟨unit, parsed⟩ := Except.exists_of_isSome read
  obtain ⟨entries, explained, rich, enriched⟩ :=
    @analyze_messages_explained _ _ _ {} _ (.bool false) (.bool true) rfl rfl parsed analyzed
  refine ⟨rfl, rfl, unit, analysis, explained, parsed, analyzed, codes, fun diagnostic member =>
    (entries diagnostic member).2, rich, ?_⟩
  rw [← enriched.length_eq, ← length_map, codes]
  rfl

end SysYTools
