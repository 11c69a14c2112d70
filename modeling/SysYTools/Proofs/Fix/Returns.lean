import SysYTools.Command.Run
import SysYTools.Proofs.Editor.Notice
import SysYTools.Proofs.Repair.Returns
import SysYTools.Proofs.Rule.Returns
import SysYTools.Proofs.Token.Insertion
import SysYTools.Proofs.Tree.Braces
import SysYTools.Proofs.Tree.Functions

/-!
The fix for a missing return statement. The statement is read as the last one of the function, so the fix settles
the report that it answers and leaves all others.
-/

namespace SysYTools

open List Lexis Grammar

variable {front back : List Item} {file : String} {document : Document} {span : Span}
variable {range : Range}
variable {func' : FuncDef} {linkage : Linkage} {place : Span} {shift : ℤ ×ₗ ℤ → ℤ ×ₗ ℤ} {unit unit' : CompUnit}

/-! ## The program that is read -/

def BaseType.zero : BaseType → Span → Expr
  | .int, span => .intLit "0" span
  | .float, span => .floatLit "0.0" span

/-- No comment between the return type and the body of a function has an opening brace in it. -/
def FuncDef.HasQuietHead (func : FuncDef) (document : Document) : Prop :=
  ∀ piece ∈ pieces (document.text.slice (document.offsetsOf func.typeSpan).1 (document.offsetsOf func.bodySpan).1),
    piece.1 = .gap → '\x7b' ∉ piece.2

instance (func : FuncDef) (document : Document) : Decidable (func.HasQuietHead document) :=
  inferInstanceAs (Decidable (∀ piece ∈ pieces _, piece.1 = .gap → '\x7b' ∉ piece.2))

theorem Grammar.TopLevel.exists_body {tokens : List Token} {func : FuncDef}
    (derived : TopLevel tokens (front ++ .func func :: back)) :
    ∃ ahead type head opening body closing behind,
      tokens = (ahead ++ type :: (head ++ opening :: body)) ++ closing :: behind ∧ func.typeSpan = type.span ∧
      func.bodySpan = opening.span.through closing.span ∧ Braceless (type :: head) ∧ opening.kind = .leftBrace ∧
      closing.kind = .rightBrace ∧ Items body func.body ∧
      ∀ (shift : ℤ ×ₗ ℤ → ℤ ×ₗ ℤ) (more : List Token) (value : Expr) (place : Span),
        Items more [.stmt (.giveBack (some value) place)] →
        TopLevel ((ahead ++ type :: (head ++ opening :: body)).map (·.along shift) ++
            (more ++ (closing :: behind).map (·.along shift))) (front.map (·.relocate (.along shift)) ++
            .func ((func.relocate (.along shift)).giving value place) :: back.map (·.relocate (.along shift))) := by
  obtain ⟨ahead, _, behind, rfl, first, defines, last⟩ := derived.exists_function
  cases defines with
  | @mk type name opening closing bodyOpening bodyClosing tokens body returnType params items typed named opens
      parameters closes bodyOpens inside bodyCloses =>
      have notBrace : type.kind ≠ .leftBrace := by
        intro brace
        rw [brace] at typed
        cases typed
      refine ⟨ahead, type, name :: opening :: tokens ++ [closing], bodyOpening, body, bodyClosing, behind, by simp, rfl,
        rfl, ?_, bodyOpens, bodyCloses, inside, fun shift more value place extra => ?_⟩
      · exact (((parameters.braceless.cons (by rw [opens]; decide)).cons (by rw [named]; decide)).append
          (Braceless.nil.cons (by rw [closes]; decide))).cons notBrace
      · have typed' : ReturnType.ofKind? (type.along shift).kind = some returnType := typed
        have params' := @Parameters.along shift _ _ parameters
        have body' := (@Items.along shift _ _ inside).append extra
        have moved := Function.mk typed' (Token.kind_along shift named) (Token.kind_along shift opens) params'
          (Token.kind_along shift closes) (Token.kind_along shift bodyOpens) body' (Token.kind_along shift bodyCloses)
        have whole := (@TopLevel.along shift _ _ first).append (.func moved (@TopLevel.along shift _ _ last))
        simpa [FuncDef.relocate, FuncDef.giving] using whole

theorem exists_giveBack (file : String) (before run : Text) (type : BaseType) (stop : Char) :
    ∃ span place, Items (wordsAt file before (Repair.returnInsert run type stop))
      [.stmt (.giveBack (some (type.zero span)) place)] := by
  have blanks : ∀ before : Text, wordsAt file before (run.map fun c => (Lexeme.gap, [c])) = [] := by
    induction run with
    | nil => exact fun _ => rfl
    | cons c _ ih => exact fun before => ih (before ++ [c])
  rw [Repair.returnInsert, wordsAt_append, blanks, nil_append]
  have states : ∀ keyword number semicolon : Token, keyword.kind = .returnKeyword →
      number.kind = type.literalKind → number.value = Literal.placeholder type.name → semicolon.kind = .semicolon →
      Items [keyword, number, semicolon] [.stmt (.giveBack (some (type.zero number.span))
        (keyword.span.through semicolon.span))] := by
    intro keyword number semicolon returns isLiteral isZero stops
    have value : ExprAt 1 [number] (type.zero number.span) := by
      cases type with
      | int =>
        have literal := (ExprAt.intLit isLiteral).loosen (show 1 ≤ 7 by decide) (by decide)
        rwa [isZero] at literal
      | float =>
        have literal := (ExprAt.floatLit isLiteral).loosen (show 1 ≤ 7 by decide) (by decide)
        rwa [isZero] at literal
    exact .stmt (.giveBack returns value stops) .nil
  exact ⟨_, _, states _ _ _ rfl rfl (by simp [tokenAfter]) rfl⟩

/-- The pieces of a text at a function: those before it, those of its head, those of its body and those behind it.
A statement at the end of the body belongs to the function. -/
structure FuncDef.Pieces (file : String) (document : Document) (front back : List Item) (func : FuncDef)
    (start head inner after : List Piece) : Prop where
  text : document.text =
    written ((start ++ head) ++ (.token .leftBrace, ['\x7b']) :: (inner ++ (.token .rightBrace, ['\x7d']) :: after))
  fits : Fits ((start ++ head) ++ (.token .leftBrace, ['\x7b']) :: (inner ++ (.token .rightBrace, ['\x7d']) :: after))
  first : ∀ range, func.typeSpan.toRange = .ok range →
    range.start = ⟨(written start).count '\n', (written start).lastLine.length⟩
  offsets : (document.offsetsOf func.typeSpan).1 = (written start).length ∧
    (document.offsetsOf func.bodySpan).1 = (written (start ++ head)).length
  braceless : ∀ value, (.leftBrace, value) ∉ wordsOf head
  balanced : Balanced (wordsOf inner)
  marked : ∀ last ∈ (wordsOf inner).getLast?, last.1.isSign = true
  rebuild : ∀ (shift : ℤ ×ₗ ℤ → ℤ ×ₗ ℤ) (more : List Token) (value : Expr) (place : Span),
    Items more [.stmt (.giveBack (some value) place)] →
    TopLevel ((wordsAt file [] (start ++ head ++ (.token .leftBrace, ['\x7b']) :: inner)).map (·.along shift) ++
        (more ++ (wordsAt file (written (start ++ head ++ (.token .leftBrace, ['\x7b']) :: inner))
          ((.token .rightBrace, ['\x7d']) :: after)).map (·.along shift)))
      (front.map (·.relocate (.along shift)) ++
        .func ((func.relocate (.along shift)).giving value place) :: back.map (·.relocate (.along shift)))

theorem CompUnit.exists_pieces
    (parsed : CompUnit.ofText file document.text = .ok unit) {func : FuncDef}
    (items : unit.items = front ++ .func func :: back) :
    ∃ start head inner after, func.Pieces file document front back start head inner after := by
  obtain ⟨clean, derived, -⟩ := Fix.words_of_ofText parsed
  rw [items] at derived
  obtain ⟨ahead, first, head, opening, body, _, _, words, isType, isBody, braceless, opens, closes, inside,
    rebuild⟩ := derived.exists_body
  -- The tokens are found among the pieces from the last one to the first one.
  obtain ⟨list, value, after, cut, listWords, shape, afterWords⟩ := wordsAt_split words
  have upToBody : wordsAt file [] list = (ahead ++ first :: head) ++ opening :: body := by simpa using listWords
  obtain ⟨_, openingValue, inner, rfl, uptoWords, openingShape, innerWords⟩ := wordsAt_split upToBody
  obtain ⟨start, firstValue, between, rfl, _, firstShape, betweenWords⟩ := wordsAt_split uptoWords
  rw [nil_append] at shape openingShape firstShape afterWords innerWords betweenWords
  have headWords : wordsAt file (written start) ((.token first.kind, firstValue) :: between) = first :: head := by
    rw [wordsAt, ← firstShape, betweenWords]
  have standsFirst : Stands file document.text first (written start) firstValue :=
    stands_of_pieces (cut.trans (by rw [append_assoc, append_assoc, cons_append])) firstShape
  have standsOpening : Stands file document.text opening _ openingValue :=
    stands_of_pieces (cut.trans (by rw [append_assoc, cons_append])) openingShape
  have standsClosing := stands_of_pieces cut shape
  obtain rfl : openingValue = ['\x7b'] := (opens ▸ standsOpening.isToken).sign rfl
  obtain rfl : value = ['\x7d'] := (closes ▸ standsClosing.isToken).sign rfl
  have whole : pieces document.text = (start ++ (.token first.kind, firstValue) :: between) ++
      (.token .leftBrace, ['\x7b']) :: (inner ++ (.token .rightBrace, ['\x7d']) :: after) := by
    rw [cut, opens, closes, append_assoc, cons_append]
  have bodyWords : wordsOf inner = body.map wordOf := by rw [← innerWords, map_wordOf_wordsAt]
  refine ⟨start, (.token first.kind, firstValue) :: between, inner, after,
    { text := ?_, fits := ?_, first := ?_, offsets := ⟨?_, ?_⟩, braceless := ?_, balanced := ?_, marked := ?_
      rebuild := ?_ }⟩
  · rw [← whole, written_pieces]
  · exact ⟨by rw [← whole, written_pieces], fun piece member => clean piece (whole ▸ member)⟩
  · intro range ranged
    rw [isType] at ranged
    exact (standsFirst.toRange_eq_ok_iff.mp ranged).1.1
  · rw [isType]
    exact congrArg Prod.fst (standsFirst.offsetsOf_through standsFirst)
  · rw [isBody]
    exact congrArg Prod.fst (standsOpening.offsetsOf_through standsClosing)
  · intro value member
    rw [← map_wordOf_wordsAt file (written start), headWords] at member
    obtain ⟨token, isToken, same⟩ := mem_map.mp member
    exact braceless token isToken (congrArg Prod.fst same)
  · rw [bodyWords]
    exact inside.balanced
  · intro last isLast
    rw [bodyWords, getLast?_map] at isLast
    obtain ⟨token, isToken, rfl⟩ := Option.map_eq_some_iff.mp isLast
    rcases inside.endsMarked with rfl | ⟨_, own, rfl, isSign⟩
    · cases isToken
    · obtain rfl : own = token := by simpa using isToken
      exact isSign
  · intro shift more value place extra
    rw [opens] at listWords shape afterWords
    rw [closes] at shape
    rw [listWords, wordsAt, ← shape, afterWords]
    exact rebuild shift more value place extra

namespace FuncDef.Pieces

variable {file : String} {document : Document} {front back : List Item} {func : FuncDef}
  {start head inner after : List Piece} (cut : func.Pieces file document front back start head inner after)
include cut

theorem find?_brace (quiet : func.HasQuietHead document) (ranged : func.typeSpan.toRange = .ok range) :
    document.text.find? '\x7b' (document.offsetAt range.start) = some (written (start ++ head)).length := by
  have shape : document.text = written start ++
      (written head ++ '\x7b' :: written (inner ++ (.token .rightBrace, ['\x7d']) :: after)) := by
    rw [cut.text]
    simp
  have fits := cut.fits.left.right
  have slice : document.text.slice (written start).length (written (start ++ head)).length = written head := by
    rw [Text.slice, shape, drop_left, written_append, length_append, Nat.add_sub_cancel_left, take_left]
  have absent : '\x7b' ∉ written head := by
    intro member
    obtain ⟨⟨_, value⟩, isPiece, inside⟩ := mem_flatMap.mp member
    rcases fits.sound _ isPiece with isGap | ⟨kind, isToken⟩
    · rw [HasQuietHead, cut.offsets.1, cut.offsets.2, slice, fits.pieces] at quiet
      exact quiet _ isPiece isGap inside
    · cases isToken
      obtain ⟨-, kindOf⟩ := (fits.isToken isPiece).eq_singleton inside rfl
      obtain rfl : .leftBrace = kind := Option.some.inj kindOf
      exact cut.braceless value (mem_filterMap.mpr ⟨_, isPiece, rfl⟩)
  have offset : document.offsetAt range.start = (written start).length := by
    rw [cut.first range ranged]
    exact Document.offsetAt_after document.uri ⟨_, shape.symm⟩
  rw [offset, shape, Text.find?_append absent, written_append]

theorem closed : ∀ last ∈ ((Lexeme.token .leftBrace, ['\x7b']) :: inner).getLast?, ∀ kind, last.1 = .token kind →
    kind.isSign = true := by
  rintro ⟨_, value⟩ isLast kind rfl
  rcases eq_nil_or_concat' inner with rfl | ⟨_, _, rfl⟩
  · cases isLast
    rfl
  · rw [← cons_append, getLast?_concat] at isLast
    cases isLast
    exact cut.marked (kind, value) (by rw [wordsOf_append]; simp)

end FuncDef.Pieces

theorem BlockItem.allNearestElse_append {left right : List BlockItem} :
    BlockItem.AllNearestElse (left ++ right) ↔ BlockItem.AllNearestElse left ∧ BlockItem.AllNearestElse right := by
  induction left with
  | nil => simp [BlockItem.AllNearestElse]
  | cons _ _ ih => simp only [cons_append, BlockItem.AllNearestElse, ih, and_assoc]

theorem Item.nearestElse_giving {func : FuncDef}
    (nearest : ∀ item ∈ front ++ .func func :: back, item.NearestElse) (move : Relocation) (value : Expr)
    (place : Span) :
    ∀ item ∈ front.map (·.relocate move) ++ .func ((func.relocate move).giving value place) ::
      back.map (·.relocate move), item.NearestElse := by
  have moved : ∀ item ∈ front ++ .func func :: back, (item.relocate move).NearestElse :=
    fun item member => item.nearestElse_relocate.mpr (nearest item member)
  intro item member
  rcases mem_append.mp member with isFront | member
  · obtain ⟨item, isItem, rfl⟩ := mem_map.mp isFront
    exact moved item (mem_append_left _ isItem)
  rcases mem_cons.mp member with rfl | isBack
  · exact BlockItem.allNearestElse_append.mpr
      ⟨moved (.func func) (mem_append_right _ mem_cons_self), trivial, trivial⟩
  · obtain ⟨item, isItem, rfl⟩ := mem_map.mp isBack
    exact moved item (mem_append_right _ (mem_cons_of_mem _ isItem))

theorem BaseType.isLiteral_zero (type : BaseType) (span : Span) : (type.zero span).isLiteral = true := by
  cases type <;> rfl

theorem wordsAt_of_wordsOf {before : Text} {list : List Piece} (none : wordsOf list = []) :
    wordsAt file before list = [] := by
  rw [← map_wordOf_wordsAt file before, map_eq_nil_iff] at none
  exact none

theorem CompUnit.exists_returned
    (parsed : CompUnit.ofText file document.text = .ok unit) {func : FuncDef}
    (items : unit.items = front ++ .func func :: back) (quiet : func.HasQuietHead document)
    (ranged : func.typeSpan.toRange = .ok range) (type : BaseType) :
    ∃ edit shift unit' func' span place, Repair.returnEdit document range.start type.name = some edit ∧
      StrictMono shift ∧ CompUnit.ofText file (Edit.applyAll document.text [edit]) = .ok unit' ∧
      CompUnit.Returned shift unit unit' front back func func' (type.zero span) place := by
  obtain ⟨_, -, nearest⟩ := Fix.words_of_ofText parsed
  obtain ⟨start, head, inner, after, cut⟩ := CompUnit.exists_pieces parsed items
  obtain ⟨left, gaps, run, stop, split, none, apart, blank, stops, edited⟩ :=
    Repair.exists_returnEdit cut.fits cut.balanced cut.closed cut.text (cut.find?_brace quiet ranged) type
  have whole : (start ++ head) ++ (Lexeme.token .leftBrace, ['\x7b']) ::
      (inner ++ (.token .rightBrace, ['\x7d']) :: after) = left ++ (gaps ++ (.token .rightBrace, ['\x7d']) :: after) := by
    rw [← append_assoc left, ← split]
    simp
  have fits := cut.fits
  have isText := cut.text
  rw [whole] at fits isText
  obtain ⟨span, place, states⟩ := exists_giveBack file (written left) run type stop
  have leftWords : wordsAt file [] (start ++ head ++ (.token .leftBrace, ['\x7b']) :: inner) =
      wordsAt file [] left := by
    rw [split, wordsAt_append, wordsAt_of_wordsOf none, append_nil]
  have rightWords : wordsAt file (written (start ++ head ++ (.token .leftBrace, ['\x7b']) :: inner))
      ((.token .rightBrace, ['\x7d']) :: after) =
        wordsAt file (written left) (gaps ++ (.token .rightBrace, ['\x7d']) :: after) := by
    rw [split, wordsAt_append, wordsAt_of_wordsOf none, nil_append, written_append]
  have built := cut.rebuild (pushed (written left) (written (Repair.returnInsert run type stop))) _ _ _ states
  rw [leftWords, rightWords, ← wordsAt_insert file _ (fits.pieces ▸ onLine_pieces _)] at built
  have cut' := Repair.pieces_return fits apart blank type stops
  have sound : ∀ piece ∈ left ++ (Repair.returnInsert run type stop ++
      (gaps ++ (.token .rightBrace, ['\x7d']) :: after)), Sound piece := by
    intro piece member
    rcases mem_append.mp member with old | member
    · exact fits.sound piece (mem_append_left _ old)
    rcases mem_append.mp member with new | old
    · exact Repair.sound_returnInsert piece new
    · exact fits.sound piece (mem_append_right _ old)
  rw [items] at nearest
  obtain ⟨unit', parsed', items'⟩ := CompUnit.exists_ofText cut' sound built (Item.nearestElse_giving nearest _ _ _)
  have applied := Edit.applyAll_insert (written left) (run ++ Repair.returnText type.name ++ [stop])
    (written (gaps ++ (.token .rightBrace, ['\x7d']) :: after))
  rw [← written_append, ← isText] at applied
  exact ⟨_, _, unit', _, span, place, edited, pushed_strictMono _ _, applied ▸ parsed', items, items', rfl,
    type.isLiteral_zero span⟩

theorem BaseType.shape_zero (type : BaseType) (span : Span) : (type.zero span).shape = type.zero .nowhere := by
  cases type <;> rfl

theorem FuncDef.shape_giving (func : FuncDef) (value : Expr) (place : Span) :
    (func.giving value place).shape id = (func.shape id).giving value.shape .nowhere := by
  simp [FuncDef.shape, FuncDef.giving, BlockItem.shapes_eq, BlockItem.shape, Stmt.shape]

theorem CompUnit.Returned.shape_eq {func : FuncDef} {type : BaseType}
    (returned : CompUnit.Returned shift unit unit' front back func func' (type.zero span) place) :
    unit'.shape id = front.map (·.shape id) ++
      .func ((func.shape id).giving (type.zero .nowhere) .nowhere) :: back.map (·.shape id) := by
  have moved : ∀ items : List Item, (items.map (·.relocate (.along shift))).map (·.shape id) =
      items.map (·.shape id) := by
    intro items
    rw [map_map]
    exact map_congr_left fun item _ => item.shape_relocate
  have own : func'.shape id = (func.shape id).giving (type.zero .nowhere) .nowhere := by
    rw [returned.gives, FuncDef.shape_giving, FuncDef.shape_relocate, BaseType.shape_zero]
  rw [CompUnit.shape, returned.items', map_append, map_cons, moved, moved, Item.shape, own]

/-! ## Diagnostics -/

theorem analyze_returned {text text' : Text} (parsed : CompUnit.ofText file text = .ok unit)
    (parsed' : CompUnit.ofText file text' = .ok unit') (linked : unit.link = .ok linkage) (mono : StrictMono shift)
    {func : FuncDef} {value : Expr}
    (returned : CompUnit.Returned shift unit unit' front back func func' value place) {type : BaseType}
    (returns : func.returnType = .value type) (settings : CheckSettings) (table : ExplanationTable) :
    ∃ analysis', analyze file text' settings table = .ok analysis' ∧ analysis'.diagnostics =
        ((unit.reportsAhead ((settings.select Rulebook.standard).violations linkage) front ++
          unit.reportsBehind ((settings.select Rulebook.standard).violations linkage) func back).map
            fun report => settings.present table (.ofReport report)).map (·.along shift) := by
  have aligned := CompUnit.aligned_of_ofText parsed
  have aligned' := CompUnit.aligned_of_ofText parsed'
  obtain ⟨_, linked'⟩ := CompUnit.exists_link_of_carried returned.carried aligned aligned' linked
  have both := CompUnit.Moves.of_carried returned.carried aligned aligned' linked mono returned.promises linked'
  refine ⟨_, analyze_of_link parsed' linked', ?_⟩
  simp only [Program.check, returned.violations_eq both returns settings, map_map, Function.comp_def,
    settings.present_along table]

theorem exists_function_of_diagnostic {settings : CheckSettings} {table : ExplanationTable}
    {before after : List Diagnostic} {diagnostic : Diagnostic}
    (split : Program.check ⟨unit, linkage⟩ Rulebook.standard settings table = before ++ diagnostic :: after)
    (missing : diagnostic.code = .missingReturn) :
    ∃ front func back type message, unit.items = front ++ .func func :: back ∧ func.returnType = .value type ∧
      diagnostic = { Diagnostic.ofReport ⟨.missingReturn func.name type.name, func.typeSpan⟩ with message } ∧
      before ++ after = (unit.reportsAhead ((settings.select Rulebook.standard).violations linkage) front ++
        unit.reportsBehind ((settings.select Rulebook.standard).violations linkage) func back).map
          fun report => settings.present table (.ofReport report) := by
  obtain ⟨_, _, reports, rfl, isRest⟩ := map_eq_append_iff.mp split
  obtain ⟨report, _, rfl, rfl, rfl⟩ := map_eq_cons_iff.mp isRest
  obtain ⟨message, presented⟩ := settings.present_eq table (.ofReport report)
  rw [presented] at missing
  obtain ⟨front, func, back, type, items, returns, -, rfl, rfl, rfl⟩ :=
    CompUnit.exists_function_of_missingReturn reports missing
  exact ⟨front, func, back, type, message, items, returns, presented, map_append.symm⟩

/-! ## The fix and the command -/

theorem Position.ofInts_self {line character : Int} {position : Position}
    (checked : Position.ofInts line character = .ok position) :
    Position.ofInts position.line position.character = .ok position := by
  obtain ⟨⟨isLine, lineFits⟩, isCharacter, characterFits⟩ := Position.ofInts_eq_ok_iff.mp checked
  exact Position.ofInts_eq_ok_iff.mpr ⟨⟨rfl, isLine ▸ lineFits⟩, rfl, isCharacter ▸ characterFits⟩

theorem Range.ofValue_toValue (ranged : span.toRange = .ok range) : Range.ofValue range.toValue = .ok range := by
  obtain ⟨start, stop⟩ := Range.ofInts_eq_ok_iff.mp ranged
  have starts : Position.ofValue range.start.toValue = .ok range.start := Position.ofInts_self start
  have stops : Position.ofValue range.stop.toValue = .ok range.stop := Position.ofInts_self stop
  have fields : Range.ofValue range.toValue = (do
      return { start := ← Position.ofValue range.start.toValue, stop := ← Position.ofValue range.stop.toValue }) := rfl
  rw [fields, starts, stops]
  rfl

namespace Fix

section Resolved

variable {name message : String} {type : BaseType} {span : Span} {source : String} {notice : Notice}
  (shown : Notice.ofDiagnostic (.text source)
    { Diagnostic.ofReport ⟨.missingReturn name type.name, span⟩ with message } = .ok notice)
include shown

theorem returnType_of_notice (document : Document) (number : Nat) :
    returnType { document, notice, number } = type.name := by
  obtain ⟨-, data⟩ := notice_of_report shown
  have payload : Request.payload { document, notice, number } "returnType" = .text type.name := by
    rw [Request.payload, data]
    rfl
  have nonempty : type.name ≠ "" := by cases type <;> decide
  simp [returnType, Request.name?, Request.given, payload, Value.isGiven, Value.display, nonempty]

variable {document : Document} {edit : Edit}
  (edited : Repair.returnEdit document notice.range.start type.name = some edit) (number : Nat)
include edited

theorem addReturn_resolves :
    ∃ action, addReturn { document, notice, number } = .ok (some action) ∧
      action.effect = .edits document.uri [edit] := by
  simp only [addReturn, returnType_of_notice shown document number, Request.range, edited, Option.map_some]
  exact ⟨_, rfl, rfl⟩

theorem addReturnLater_resolves :
    ∃ action command, addReturnLater { document, notice, number } = .ok (some action) ∧
      action.effect = .command command ∧ command.kind = .addReturn ∧
      ∀ settings, Command.run settings command.kind.name command.arguments document.text = .ok [edit] := by
  refine ⟨_, _, rfl, rfl, rfl, fun settings => ?_⟩
  have runs : Command.run settings CommandKind.addReturn.name
      [.text document.uri, notice.range.toValue, .text (returnType { document, notice, number })] document.text =
        Command.addReturn document notice.range.toValue (.text (returnType { document, notice, number })) := rfl
  have adds : Command.addReturn document notice.range.toValue (.text type.name) = (do
      let range ← Range.ofValue notice.range.toValue
      return (Repair.returnEdit document range.start type.name).toList) := rfl
  rw [returnType_of_notice shown] at runs
  obtain ⟨ranged, -⟩ := notice_of_report shown
  rw [Request.range, returnType_of_notice shown, runs, adds, Range.ofValue_toValue ranged]
  exact congrArg (fun found => Except.ok (Option.toList found)) edited

end Resolved

/-- The fix for a missing return statement settles the diagnostic that it answers and no other one. It puts the
statement at the end of the function that the diagnostic is about, unless a brace in a comment before the body
misleads it. The other diagnostics stay, and their places move along in their order. The command makes the same
edit. -/
theorem addReturn_settles {file : String} {text : Text} {unit : CompUnit}
    (parsed : CompUnit.ofText file text = .ok unit) {settings : CheckSettings} {table : ExplanationTable}
    {analysis : Analysis} (analyzed : analyze file text settings table = .ok analysis)
    {before after : List Diagnostic} {diagnostic : Diagnostic}
    (split : analysis.diagnostics = before ++ diagnostic :: after) (missing : diagnostic.code = .missingReturn)
    (source uri : String) (number : Nat) :
    ∃ front func back type, unit.items = front ++ .func func :: back ∧ func.returnType = .value type ∧
      diagnostic.span? = some func.typeSpan ∧ ((text.length : Int) < Coordinate.limit →
        ∃ notice, Notice.ofDiagnostic (.text source) diagnostic = .ok notice) ∧
      (func.HasQuietHead { uri, text } → ∀ notice, Notice.ofDiagnostic (.text source) diagnostic = .ok notice →
        ∃ action edit unit' analysis' shift,
          addReturn { document := { uri, text }, notice, number } = .ok (some action) ∧
          action.effect = .edits uri [edit] ∧
          CompUnit.ofText file (Edit.applyAll text [edit]) = .ok unit' ∧
          unit'.shape id = front.map (·.shape id) ++
            .func ((func.shape id).giving (type.zero .nowhere) .nowhere) :: back.map (·.shape id) ∧
          analyze file (Edit.applyAll text [edit]) settings table = .ok analysis' ∧
          StrictMono shift ∧ analysis'.diagnostics = (before ++ after).map (·.along shift) ∧
          ∃ later command, addReturnLater { document := { uri, text }, notice, number } = .ok (some later) ∧
            later.effect = .command command ∧ command.kind = .addReturn ∧
            ∀ settings, Command.run settings command.kind.name command.arguments text = .ok [edit]) := by
  have member : diagnostic ∈ analysis.diagnostics := split ▸ mem_append_right _ mem_cons_self
  obtain ⟨_, linked, rfl⟩ := exists_program_of_analyze parsed analyzed
  obtain ⟨front, func, back, type, _, items, returns, rfl, others⟩ := exists_function_of_diagnostic split missing
  refine ⟨front, func, back, type, items, returns, rfl,
    fun short => (exists_notice analyzed member short rfl uri).imp fun _ shown => shown.1, fun quiet notice shown => ?_⟩
  obtain ⟨ranged, -⟩ := notice_of_report shown
  obtain ⟨edit, shift, unit', _, _, _, edited, mono, parsed', returned⟩ :=
    CompUnit.exists_returned parsed items quiet ranged type
  obtain ⟨action, resolved, effect⟩ := addReturn_resolves shown edited number
  obtain ⟨analysis', analyzed', same⟩ := analyze_returned parsed parsed' linked mono returned returns settings table
  refine ⟨action, edit, unit', analysis', shift, resolved, effect, parsed', returned.shape_eq, analyzed', mono, ?_,
    addReturnLater_resolves shown edited number⟩
  rw [same, others]

private def openEnded : Text :=
  "int g()\x7breturn h();\x7d\nfloat f(int x) // head\n\x7b\n\tx = y; /* \x7d */\n\t// return 0;\n  \x7d".toList

/-- A comment is the last thing in the function, and braces in comments do not count. -/
theorem addReturn_settles_comment :
    ∃ analysis diagnostic notice action edit analysis' later command, analyze "t.sy" openEnded {} ⟨[]⟩ = .ok analysis ∧
      analysis.diagnostics.map (·.code) = [.undefinedFunction, .missingReturn, .undefinedVariable] ∧
      diagnostic ∈ analysis.diagnostics ∧ diagnostic.code = .missingReturn ∧
      Notice.ofDiagnostic (.text "sysy") diagnostic = .ok notice ∧
      addReturn ⟨⟨"t.sy", openEnded⟩, notice, 0⟩ = .ok (some action) ∧ action.effect = .edits "t.sy" [edit] ∧
      analyze "t.sy" (Edit.applyAll openEnded [edit]) {} ⟨[]⟩ = .ok analysis' ∧
      analysis'.diagnostics.map (·.code) = [.undefinedFunction, .undefinedVariable] ∧
      addReturnLater ⟨⟨"t.sy", openEnded⟩, notice, 0⟩ = .ok (some later) ∧ later.effect = .command command ∧
      ∀ settings, Command.run settings command.kind.name command.arguments openEnded = .ok [edit] := by
  have chars : openEnded = _ := String.toList_ofList
  have heads : (CompUnit.ofText "t.sy" openEnded).toOption.map (fun unit =>
      unit.functions.all fun func => decide (func.HasQuietHead ⟨"t.sy", openEnded⟩)) = some true := by
    rw [chars]
    decide +kernel
  have found : (analyze "t.sy" openEnded {} ⟨[]⟩).toOption.map (fun analysis =>
      analysis.diagnostics.map (·.code)) = some [.undefinedFunction, .missingReturn, .undefinedVariable] := by
    rw [chars]
    decide +kernel
  obtain ⟨unit, parsed, heads⟩ := Except.exists_of_toOption heads
  obtain ⟨analysis, analyzed, codes⟩ := Except.exists_of_toOption found
  obtain ⟨first, _, all, isFirst, isRest⟩ := map_eq_cons_iff.mp codes
  obtain ⟨diagnostic, last, rfl, missing, isLast⟩ := map_eq_cons_iff.mp isRest
  obtain ⟨_, func, _, _, items, -, -, hasNotice, settles⟩ :=
    @addReturn_settles _ _ _ parsed _ _ _ analyzed [first] last diagnostic all missing "sysy" "t.sy" 0
  obtain ⟨notice, shown⟩ := hasNotice (by rw [chars]; decide)
  have quiet : func.HasQuietHead ⟨"t.sy", openEnded⟩ := by
    have isFunc : func ∈ unit.functions := mem_filterMap.mpr ⟨.func func, by simp [items], rfl⟩
    exact of_decide_eq_true (all_eq_true.mp heads func isFunc)
  obtain ⟨action, edit, _, analysis', _, resolved, effect, -, -, analyzed', -, same, later, command,
    left, leaves, -, runs⟩ := settles quiet notice shown
  have codes' : analysis'.diagnostics.map (·.code) = [.undefinedFunction, .undefinedVariable] := by
    simp only [same, map_map, Function.comp_def, Diagnostic.along, map_append, map_cons, map_nil, isFirst, isLast]
    rfl
  exact ⟨analysis, diagnostic, notice, action, edit, analysis', later, command, analyzed, codes, by simp [all],
    missing, shown, resolved, effect, analyzed', codes', left, leaves, runs⟩

end Fix

end SysYTools
