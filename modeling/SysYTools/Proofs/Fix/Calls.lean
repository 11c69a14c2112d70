import SysYTools.Proofs.Editor.Silence
import SysYTools.Proofs.Fix.Returns
import SysYTools.Proofs.Repair.Calls

/-!
The fix for a call with the wrong number of arguments. In a text without comments it edits the call that the
diagnostic is about, and the program is read as before but for the arguments of this call.
-/

namespace SysYTools

open List Lexis Grammar Repair

variable {tokens : List Token} {text : Text} {range : Range}
variable {arguments : List Expr} {file : String} {reference : Reference} {unit : CompUnit}

/-! ## The call in the text -/

theorem Grammar.ExprAt.exists_name_of_call {level : Nat} {span : Span}
    (derived : ExprAt level tokens (.call reference arguments span)) :
    ∃ name ∈ tokens, ∃ stop, reference = ⟨name.value, name.span⟩ ∧ span = name.span.through stop := by
  generalize shape : Expr.call reference arguments span = expr at derived
  induction derived using ExprAt.rec (motive_2 := fun _ _ _ _ _ => True) (motive_3 := fun _ _ _ => True) with
  | tighter _ _ ih => exact ih shape
  | paren _ _ _ ih =>
    obtain ⟨name, member, found⟩ := ih shape
    exact ⟨name, mem_cons_of_mem _ (mem_append_left _ member), found⟩
  | callNone | call =>
    cases shape
    exact ⟨_, mem_cons_self, _, rfl, rfl⟩
  | binary | unary | intLit | floatLit | lval => cases shape
  | _ => trivial

theorem Lexis.Stands.start_of_through {before value : Text} {word : Token}
    (stands : Stands file text word before value) {stop : Span}
    (ranged : (word.span.through stop).toRange = .ok range) :
    range.start = ⟨before.count '\n', before.lastLine.length⟩ := by
  obtain ⟨⟨_, _⟩, _⟩ := range
  rw [Span.toRange, Range.ofInts_eq_ok_iff, Position.ofInts_eq_ok_iff, Span.through, stands.span_eq] at ranged
  simp only [Position.mk.injEq]
  dsimp only at ranged
  omega

theorem CompUnit.nodup_of_ofText (parsed : CompUnit.ofText file text = .ok unit) :
    ((wordsAt file [] (pieces text)).map (·.span)).Nodup := by
  cases scanned : Token.scan file text with
  | error => simp [CompUnit.ofText, scanned, bind, Except.bind] at parsed
  | ok =>
    rw [List.Nodup, pairwise_map]
    refine (Fix.pairwise_wordsAt scanned).imp_of_mem fun {left right} isLeft _ before same => ?_
    obtain ⟨_, _, around⟩ := append_of_mem isLeft
    obtain ⟨_, _, _, split, -, shape, -⟩ := wordsAt_split around
    rw [nil_append] at shape
    rw [← same] at before
    exact (stands_of_pieces split shape).ordered.not_before before

theorem Lexis.Fits.not_isWordChar_before {left right : List Piece} {name : Text}
    (fits : Fits (left ++ (.token .identifier, name) :: right)) (uncommented : Uncommented left)
    (apart : ∀ last ∈ (wordsOf left).getLast?, isNumber last.1 = false) :
    ∀ c ∈ (written left).getLast?, isWordChar c = false := by
  rcases eq_nil_or_concat' left with rfl | ⟨front, ⟨lexeme, value⟩, rfl⟩
  · simp
  have nonempty : value ≠ [] := by
    obtain ⟨c, more, isValue, -⟩ := fits.left.right.read
    rw [show value = c :: more from isValue]
    exact cons_ne_nil _ _
  have ends : (written (front ++ [(lexeme, value)])).getLast? = value.getLast? := by
    simp [getLast?_append, getLast?_eq_some_getLast nonempty]
  rw [ends]
  intro c isLast
  have within : c ∈ value := mem_of_mem_getLast? isLast
  rcases fits.left.sound _ (mem_append_right _ mem_cons_self) with rfl | ⟨kind, rfl⟩
  · have outside := uncommented _ (mem_append_right _ mem_cons_self)
    cases fits.left.right.gap with
    | blank blank =>
      obtain rfl := mem_singleton.mp within
      exact not_isWordChar_of_isGapChar blank
    | line => exact absurd (.inl ⟨_, rfl⟩) outside
    | @block body _ _ => exact absurd (.inr ⟨body ++ ['*', '/'], rfl⟩) outside
  · have other : isNumber kind = false := apart (kind, value) (by rw [wordsOf_append]; simp)
    cases fits.left.isToken (mem_append_right front mem_cons_self) with
    | word form =>
      -- A word would take in the name behind it.
      rw [append_assoc, singleton_append] at fits
      have named := (fits.right.tail.isToken mem_cons_self).word_of_kind (.inl rfl)
      cases named with
      | @mk first more start _ =>
        have unword := fits.right.parted_word form first (by simp)
        rw [isWordChar_of_isNameChar (by simp [Lexeme.isNameChar, start])] at unword
        cases unword
    | integer | float => cases other
    | symbol member =>
      have none : ∀ entry ∈ symbols, ∀ c ∈ entry.1, isWordChar c = false := by
        simp [symbols, isWordChar, Char.isAlphanum, Char.isAlpha, Char.isUpper, Char.isLower, Char.isDigit]
      exact none _ member c within

theorem Grammar.Given.balanced {arguments : List Expr} (given : Given tokens arguments) :
    Balanced (tokens.map wordOf) := by
  rcases given with ⟨rfl, -⟩ | derived
  · exact .nil
  · induction derived using ExprList.rec (motive_1 := fun _ _ _ _ => True) (motive_2 := fun _ _ _ _ _ => True) with
    | single inside => exact inside.nest.balanced
    | more inside separates _ _ ih =>
      rw [map_append, map_cons]
      exact inside.nest.balanced.append (.word separates rfl ih)
    | _ => trivial

section

variable (parsed : CompUnit.ofText file text = .ok unit) (uncommented : Uncommented (pieces text)) {span : Span}
  (isCall : .expr (.call reference arguments span) ∈ (Node.unit unit).walk)
include parsed uncommented isCall

/-- The pieces of a text around a call. With pieces of other arguments between the parentheses, the program is read
as before but for the arguments of this call. -/
theorem CompUnit.exists_callPieces :
    ∃ left gaps inner right, CallPieces (pieces text) left reference.name.toList gaps inner right ∧
      (∀ range, span.toRange = .ok range → range.start = ⟨(written left).count '\n', (written left).lastLine.length⟩) ∧
      List.Forall₂ Reads (written inner).splitCommas arguments ∧
      ∀ given exprs, Fits given → Uncommented given → ReadAs (wordsOf given) exprs →
        ∃ unit', CompUnit.ofText file (written (left ++ (.token .identifier, reference.name.toList) ::
            (.token .leftParen, ['(']) :: (given ++ (.token .rightParen, [')']) :: right))) = .ok unit' ∧
          unit'.shape id = (unit.passing (some reference.span) exprs).shape id := by
  obtain ⟨clean, derived, nearest⟩ := Fix.words_of_ofText parsed
  have nodup := CompUnit.nodup_of_ofText parsed
  obtain ⟨front, name, opening, inner, closing, back, call, isPlace, rebuild⟩ := derived.exists_call nodup isCall
  -- The name of the call is the token at the place of its reference.
  obtain ⟨stop, rfl, isSpan⟩ : ∃ stop, reference = ⟨name.value, name.span⟩ ∧ span = name.span.through stop := by
    rcases derived.of_mem_walk isCall with same | ⟨_, within, part⟩
    · cases same
    cases part with
    | expr part =>
      obtain ⟨_, member, stop, rfl, isSpan⟩ := part.exists_name_of_call
      have isName : name ∈ wordsAt file [] (pieces text) := by rw [call.split]; simp
      obtain rfl := inj_on_of_nodup_map nodup isName (within.subset member) isPlace
      exact ⟨stop, rfl, isSpan⟩
  have fits : Fits (pieces text) := ⟨by rw [written_pieces], clean⟩
  -- The tokens are found among the pieces from the first one to the last one.
  obtain ⟨left, value, rest, cut, leftWords, shape, restWords⟩ := wordsAt_split call.split
  obtain ⟨gaps, opened, _, rfl, gapWords, openingShape, restWords⟩ := @wordsAt_split _ _ _ [] _ _ restWords
  obtain ⟨mid, closed, right, rfl, midWords, closingShape, rightWords⟩ := wordsAt_split restWords
  rw [nil_append] at shape
  have stands : Stands file text name (written left) value := stands_of_pieces cut shape
  rw [call.named, call.opens, call.closes] at cut
  have cutFits := fits
  rw [cut] at cutFits
  obtain rfl : opened = ['('] := (cutFits.right.tail.right.isToken mem_cons_self).sign rfl
  obtain rfl : closed = [')'] := (cutFits.right.tail.right.tail.right.isToken mem_cons_self).sign rfl
  obtain rfl : name.value.toList = value := stands.value_eq
  have isLeft : wordsOf left = front.map wordOf := by rw [← leftWords, map_wordOf_wordsAt]
  have isMid : wordsOf mid = inner.map wordOf := by rw [← midWords, map_wordOf_wordsAt]
  have isRight : wordsOf right = back.map wordOf := by rw [← rightWords, map_wordOf_wordsAt]
  have isName : wordOf name = (.identifier, name.value.toList) := by rw [wordOf, call.named]
  have isOpening : wordOf opening = (.leftParen, ['(']) := by rw [openingShape, wordOf_tokenAfter, call.opens]
  have isClosing : wordOf closing = (.rightParen, [')']) := by rw [closingShape, wordOf_tokenAfter, call.closes]
  have cutUncommented := uncommented
  rw [cut] at cutUncommented
  have inText : CallPieces (pieces text) left name.value.toList gaps mid right :=
    { split := cut
      fits
      uncommented
      wordless := by rw [← map_wordOf_wordsAt file, gapWords]; rfl
      apart := by
        refine cutFits.not_isWordChar_before cutUncommented.left fun last isLast => ?_
        rw [isLeft, getLast?_map] at isLast
        obtain ⟨token, isToken, rfl⟩ := Option.map_eq_some_iff.mp isLast
        exact call.apart token isToken
      balanced := by
        rw [isMid]
        exact call.given.balanced }
  refine ⟨left, gaps, mid, right, inText, fun range ranged => ?_, ?_, fun given exprs fitsGiven uncommentedGiven reads => ?_⟩
  · rw [isSpan] at ranged
    exact stands.start_of_through ranged
  · exact reads_splitCommas call.given isMid cutFits.right.tail.right.tail.left cutUncommented.right.tail.right.tail.left
  · have fits' := inText.fits_given fitsGiven uncommentedGiven
    obtain ⟨_, derived', shapes⟩ := rebuild exprs (wordsOf given) reads (wordsAt file [] (left ++
      (.token .identifier, name.value.toList) :: (.token .leftParen, ['(']) ::
        (given ++ (.token .rightParen, [')']) :: right))) (by
      rw [map_wordOf_wordsAt]
      simp [isLeft, isRight, isName, isOpening, isClosing])
    obtain ⟨unit', parsed', rfl⟩ := CompUnit.exists_ofText fits'.pieces fits'.sound derived'
      (Item.nearestElse_of_shapes shapes (CompUnit.nearestElse_passing nearest))
    exact ⟨unit', parsed', shapes⟩

theorem CompUnit.exists_adjusted {count : Nat}
    (other : count ≠ arguments.length) (ranged : span.toRange = .ok range) (uri : String) :
    ∃ edit unit', (∀ isWanted : Text → Bool, isWanted reference.name.toList = true →
        adjustCallEdit { uri, text } range.start count isWanted = some edit) ∧
      CompUnit.ofText file (Edit.applyAll text [edit]) = .ok unit' ∧
      unit'.shape id = (unit.passing (some reference.span)
        (arguments.take count ++ List.replicate (count - arguments.length) (.intLit "0" .nowhere))).shape id := by
  obtain ⟨left, _, inner, _, call, starts, reads, rebuild⟩ := CompUnit.exists_callPieces parsed uncommented isCall
  have adjusted := reads_adjustArguments reads count
  obtain ⟨given, isGiven, fitsGiven, uncommentedGiven, readGiven⟩ := readAs_joinCommas adjusted
  obtain ⟨unit', parsed', shape⟩ := rebuild given _ fitsGiven uncommentedGiven readGiven
  have whole := call.written_eq
  rw [written_pieces] at whole
  have offset : Document.offsetAt { uri, text } range.start = (written left).length := by
    rw [starts range ranged]
    exact Document.offsetAt_after uri ⟨_, whole.symm⟩
  have applied := call.applyAll_eq isGiven uri
  rw [written_pieces] at applied
  refine ⟨_, unit', fun isWanted wanted => ?_, applied ▸ parsed', shape⟩
  have found := call.findCall?_eq wanted
  rw [written_pieces] at found
  have differs : ¬ ((written inner).splitCommas.length : Int) = count := by
    rw [reads.length_eq]
    omega
  rw [adjustCallEdit, offset, found]
  simp only [Option.bind_eq_bind, Option.bind_some, if_neg differs]
  rfl

end

/-! ## Diagnostics -/

theorem exists_call_of_diagnostic {linkage : Linkage} {settings : CheckSettings} {table : ExplanationTable}
    (aligned : unit.Aligned) (linked : unit.link = .ok linkage) {diagnostic : Diagnostic}
    (member : diagnostic ∈ Program.check ⟨unit, linkage⟩ Rulebook.standard settings table)
    (mismatch : diagnostic.code = .parameterMismatch) :
    ∃ reference arguments span func message, .expr (.call reference arguments span) ∈ (Node.unit unit).walk ∧
      Lexical.functionTarget unit reference = some (.function func) ∧ func.name = reference.name ∧
      func.params.length ≠ arguments.length ∧
      diagnostic = { Diagnostic.ofReport ⟨.argumentCount func.name func.params.length arguments.length, span⟩ with
        message } := by
  obtain ⟨report, reported, rfl⟩ := mem_map.mp member
  obtain ⟨message, presented⟩ := settings.present_eq table (.ofReport report)
  rw [presented] at mismatch
  rcases Program.cases_of_violations aligned linked reported with ⟨_, isSite, broken⟩ | ⟨_, -, -, rfl⟩
  · have code : report.problem.code = .parameterMismatch := mismatch
    rw [code] at broken
    cases broken with
    | @argumentCount reference arguments span ancestors func target differs =>
      have named : func.name = reference.name := by
        obtain ⟨_, found, same⟩ := Option.map_eq_some_iff.mp target
        cases same
        simpa using find?_some found
      exact ⟨reference, arguments, span, func, message, mem_map_of_mem isSite, target, named, differs, presented⟩
  · cases mismatch

/-! ## The fix and the command -/

namespace Fix

section Resolved

variable {name message : String} {expected actual : Nat} {span : Span} {source : String} {notice : Notice}
  (shown : Notice.ofDiagnostic (.text source)
    { Diagnostic.ofReport ⟨.argumentCount name expected actual, span⟩ with message } = .ok notice)
include shown

theorem about_argumentCount (document : Document) (number : Nat) :
    Request.About { document, notice, number } (.argumentCount name expected actual) := by
  simp only [Notice.ofDiagnostic, Diagnostic.ofReport, Diagnostic.span?, head?_cons, Option.map_some] at shown
  cases found : span.toRange with
  | error => rw [found] at shown; cases shown
  | ok =>
    rw [found] at shown
    cases shown
    exact ⟨rfl, _, rfl⟩

variable {document : Document} {edit : Edit}
  (edited : ∀ isWanted : Text → Bool, isWanted name.toList = true →
    adjustCallEdit document notice.range.start expected isWanted = some edit) (number : Nat)
include edited

theorem adjustArguments_resolves :
    ∃ action, adjustArguments { document, notice, number } = .ok (some action) ∧
      action.effect = .edits document.uri [edit] := by
  have about := about_argumentCount shown document number
  have named : Request.payload { document, notice, number } "functionName" = .text name := about.payload_eq rfl
  have made := edited (allows (.text name)) (by simp [allows])
  simp only [adjustArguments, about.arity?, named, Request.range, made, bind, Except.bind, Option.bind_some,
    Option.map_some]
  exact ⟨_, rfl, rfl⟩

theorem adjustArgumentsLater_resolves :
    ∃ action command, adjustArgumentsLater { document, notice, number } = .ok (some action) ∧
      action.effect = .command command ∧ command.kind = .adjustParameters ∧
      ∀ settings, Command.run settings command.kind.name command.arguments document.text = .ok [edit] := by
  have about := about_argumentCount shown document number
  simp only [adjustArgumentsLater, about.arity?, bind, Except.bind, Option.map_some]
  refine ⟨_, _, rfl, rfl, rfl, fun settings => ?_⟩
  have runs : Command.run settings CommandKind.adjustParameters.name
      [.text document.uri, notice.range.toValue, .int expected] document.text =
        Command.adjustParameters document notice.range.toValue (.int expected) := rfl
  have adjusts : Command.adjustParameters document notice.range.toValue (.int expected) = (do
      let range ← Range.ofValue notice.range.toValue
      return (adjustCallEdit document range.start expected fun _ => true).toList) := rfl
  obtain ⟨ranged, -⟩ := notice_of_report shown
  rw [Request.range, runs, adjusts, Range.ofValue_toValue ranged]
  exact congrArg (fun found => Except.ok (Option.toList found)) (edited (fun _ => true) rfl)

end Resolved

/-- The fix for a wrong number of arguments edits the call that the diagnostic is about and only its arguments, where
no comment is in the text. The call gets as many arguments as its function has parameters: the first ones of before,
and zeros where some are missing. All else of the program stays as it is, and no other part has its name at the place
of this call. The command makes the same edit. -/
theorem adjustArguments_edits_call {file : String} {text : Text} {unit : CompUnit}
    (parsed : CompUnit.ofText file text = .ok unit) (uncommented : Uncommented (pieces text))
    {settings : CheckSettings} {table : ExplanationTable} {analysis : Analysis}
    (analyzed : analyze file text settings table = .ok analysis) {diagnostic : Diagnostic}
    (member : diagnostic ∈ analysis.diagnostics) (mismatch : diagnostic.code = .parameterMismatch)
    (source uri : String) (number : Nat) :
    ∃ reference arguments span func, .expr (.call reference arguments span) ∈ (Node.unit unit).walk ∧
      diagnostic.span? = some span ∧ Lexical.functionTarget unit reference = some (.function func) ∧
      (∀ other ∈ (Node.unit unit).walk, reference.span ∈ other.words →
        other = .expr (.call reference arguments span)) ∧ ((text.length : Int) < Coordinate.limit →
        ∃ notice, Notice.ofDiagnostic (.text source) diagnostic = .ok notice) ∧
      ∀ notice, Notice.ofDiagnostic (.text source) diagnostic = .ok notice →
        arity? { document := { uri, text }, notice, number } = .ok (some (func.params.length, arguments.length)) ∧
        ∃ action edit unit', adjustArguments { document := { uri, text }, notice, number } = .ok (some action) ∧
          action.effect = .edits uri [edit] ∧
          (∃ later command, adjustArgumentsLater { document := { uri, text }, notice, number } = .ok (some later) ∧
            later.effect = .command command ∧ command.kind = .adjustParameters ∧
            ∀ settings, Command.run settings command.kind.name command.arguments text = .ok [edit]) ∧
          CompUnit.ofText file (Edit.applyAll text [edit]) = .ok unit' ∧
          unit'.shape id = (unit.passing (some reference.span) (arguments.take func.params.length ++
            List.replicate (func.params.length - arguments.length) (.intLit "0" .nowhere))).shape id := by
  obtain ⟨_, linked, rfl⟩ := exists_program_of_analyze parsed analyzed
  obtain ⟨reference, arguments, span, func, _, isCall, target, named, differs, rfl⟩ :=
    exists_call_of_diagnostic (CompUnit.aligned_of_ofText parsed) linked member mismatch
  obtain ⟨_, isSource⟩ := CompUnit.exists_source parsed
  refine ⟨reference, arguments, span, func, isCall, rfl, target, fun other isOther inOther => ?_,
    fun short => (exists_notice analyzed member short rfl uri).imp fun _ shown => shown.1,
    fun notice shown => ⟨(about_argumentCount shown _ number).arity?, ?_⟩⟩
  · exact isSource.laid.eq_of_mem_words isOther isCall inOther mem_cons_self
  · obtain ⟨ranged, -⟩ := notice_of_report shown
    obtain ⟨edit, unit', edited, parsed', shape⟩ :=
      CompUnit.exists_adjusted parsed uncommented isCall differs ranged uri
    rw [← named] at edited
    obtain ⟨action, resolved, effect⟩ := adjustArguments_resolves shown edited number
    exact ⟨action, edit, unit', resolved, effect, adjustArgumentsLater_resolves shown edited number, parsed', shape⟩

private def miscalled : Text :=
  "int g(int a,int b)\x7breturn a;\x7d\nint main()\x7breturn 1-g\n( g(1,2), (3) ,4)*g( );\x7d".toList

/-- A call with too many arguments, one of which is a call with a comma of its own, and one without any. -/
theorem adjustArguments_edits_call_nested :
    ∃ unit analysis, CompUnit.ofText "t.sy" miscalled = .ok unit ∧ Uncommented (pieces miscalled) ∧
      analyze "t.sy" miscalled {} ⟨[]⟩ = .ok analysis ∧
      analysis.diagnostics.map (·.code) = [.parameterMismatch, .parameterMismatch] ∧
      ∀ diagnostic ∈ analysis.diagnostics, ∃ reference arguments span func notice action edit unit',
        .expr (.call reference arguments span) ∈ (Node.unit unit).walk ∧ diagnostic.span? = some span ∧
        Lexical.functionTarget unit reference = some (.function func) ∧
        Notice.ofDiagnostic (.text "sysy") diagnostic = .ok notice ∧
        adjustArguments ⟨⟨"t.sy", miscalled⟩, notice, 0⟩ = .ok (some action) ∧ action.effect = .edits "t.sy" [edit] ∧
        CompUnit.ofText "t.sy" (Edit.applyAll miscalled [edit]) = .ok unit' ∧
        unit'.shape id = (unit.passing (some reference.span) (arguments.take func.params.length ++
          List.replicate (func.params.length - arguments.length) (.intLit "0" .nowhere))).shape id := by
  have chars : miscalled = _ := String.toList_ofList
  have accepted : (CompUnit.ofText "t.sy" miscalled).toOption.isSome = true := by
    rw [chars]
    decide +kernel
  have found : (analyze "t.sy" miscalled {} ⟨[]⟩).toOption.map (fun analysis =>
      analysis.diagnostics.map (·.code)) = some [.parameterMismatch, .parameterMismatch] := by
    rw [chars]
    decide +kernel
  have uncommented : Uncommented (pieces miscalled) := by
    rw [chars]
    decide +kernel
  obtain ⟨unit, parsed⟩ := Except.exists_of_isSome accepted
  obtain ⟨analysis, analyzed, codes⟩ := Except.exists_of_toOption found
  refine ⟨unit, analysis, parsed, uncommented, analyzed, codes, fun diagnostic member => ?_⟩
  have mismatch : diagnostic.code = .parameterMismatch := by
    have isCode : diagnostic.code ∈ analysis.diagnostics.map (·.code) := mem_map_of_mem member
    simpa [codes] using isCode
  obtain ⟨reference, arguments, span, func, isCall, isSpan, target, -, hasNotice, edits⟩ :=
    adjustArguments_edits_call parsed uncommented analyzed member mismatch "sysy" "t.sy" 0
  obtain ⟨notice, shown⟩ := hasNotice (by rw [chars]; decide)
  obtain ⟨-, action, edit, unit', resolved, effect, -, parsed', shape⟩ := edits notice shown
  exact ⟨reference, arguments, span, func, notice, action, edit, unit', isCall, isSpan, target, shown, resolved,
    effect, parsed', shape⟩

end Fix

end SysYTools
