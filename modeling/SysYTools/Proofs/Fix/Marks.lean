import SysYTools.Fix.Marks
import SysYTools.Proofs.Edit
import SysYTools.Proofs.Token.Pieces
import SysYTools.Proofs.Tree.Decision
import SysYTools.Proofs.Tree.MendingRun

/-!
The fixes that put in a mark. The edit of such a fix stands right behind the token that the report names, so the text
gets one token more and keeps all others.
-/

namespace SysYTools

open List

variable {file : String} {index : Nat} {kind : TokenKind} {notice : Notice} {report : Report}
  {reports : List Report} {text value : Text} {tokens : List Token}

namespace Fix

open SysYTools.Lexis SysYTools.Parser

/-- The mark that a problem misses and the fix that puts it in. -/
inductive PutsIn : Char → Resolver → Problem → Prop where
  | semicolon {after : String} : PutsIn ';' insertSemicolon (.missingSemicolon after)
  | paren {after : String} : PutsIn ')' insertBracket (.missingBracket ')' after)
  | bracket {after : String} : PutsIn ']' insertBracket (.missingBracket ']' after)

namespace PutsIn

variable {mark : Char} {resolver : Resolver} {problem : Problem}

theorem isDelimiter (puts : PutsIn mark resolver problem) : isDelimiter mark = true := by
  cases puts with
  | _ => rfl

theorem mends (puts : PutsIn mark resolver problem) :
    ∃ kind, TokenKind.ofChar? mark = some kind ∧ Mends kind problem := by
  cases puts with
  | semicolon => exact ⟨_, rfl, .semicolon⟩
  | paren => exact ⟨_, rfl, .paren⟩
  | bracket => exact ⟨_, rfl, .bracket⟩

theorem resolves (puts : PutsIn mark resolver problem) {document : Document} {number : Nat} {category : Value}
    (data : notice.data = .record (problem.payload ++ [("category", category)])) :
    ∃ action, resolver { document, notice, number } = .ok (some action) ∧
      action.effect = .edits document.uri [.insert notice.range.stop [mark]] := by
  cases puts with
  | semicolon => exact ⟨_, rfl, rfl⟩
  | paren | bracket =>
    simp only [insertBracket, Request.given, Request.payload, data]
    exact ⟨_, rfl, rfl⟩

end PutsIn

theorem notice_of_report {message : String} {category : Category} {source : String}
    (shown : Notice.ofDiagnostic (.text source) { Diagnostic.ofReport report with message, category } = .ok notice) :
    report.span.toRange = .ok notice.range ∧
      notice.data = .record (report.problem.payload ++ [("category", .text category.name)]) := by
  simp only [Notice.ofDiagnostic, Diagnostic.ofReport, Diagnostic.span?, head?_cons, Option.map_some] at shown
  cases found : report.span.toRange with
  | error => rw [found] at shown; cases shown
  | ok =>
    rw [found] at shown
    cases shown
    exact ⟨rfl, rfl⟩

theorem stop_eq {before : Text} {word : Token} (stands : Stands file text word before value) {range : Range}
    (found : word.span.toRange = .ok range) :
    range.stop = ⟨(before ++ value).count '\n', (before ++ value).lastLine.length⟩ := by
  obtain ⟨⟨-, stop⟩, -⟩ := stands.toRange_eq_ok_iff.mp found
  have plain := stands.isToken.no_feed
  rw [stop, Text.lastLine_append_of_no_feed before plain, count_append,
    count_eq_zero.mpr plain, length_append, Nat.add_zero]

/-! ## The word that a report names -/

theorem ofText_of_scan (scanned : Token.scan file text = .ok tokens) :
    CompUnit.ofText file text = CompUnit.ofTokens file tokens := by
  rw [CompUnit.ofText, scanned]
  rfl

theorem kinds_wordsAt (file : String) (before : Text) (list : List (Lexeme × Text)) :
    kinds (wordsAt file before list) = (wordsOf list).map Prod.fst := by
  rw [← map_wordOf_wordsAt file before, map_map]
  rfl

theorem pairwise_wordsAt (scanned : Token.scan file text = .ok tokens) :
    (wordsAt file [] (pieces text)).Pairwise fun left right => left.span.Before right.span := by
  obtain ⟨_, shape, -, _, -⟩ := (placed_of_scan_eq_ok scanned).words
  rw [(scan_eq_ok_iff.mp scanned).2] at shape
  rwa [(append_inj' shape rfl).1]

theorem plain_wordsAt (scanned : Token.scan file text = .ok tokens) :
    ∀ word ∈ wordsAt file [] (pieces text), word.kind ≠ .endOfInput := by
  obtain ⟨_, shape, -, -, standing⟩ := (placed_of_scan_eq_ok scanned).words
  rw [(scan_eq_ok_iff.mp scanned).2] at shape
  rw [(append_inj' shape rfl).1]
  intro word member
  obtain ⟨_, _, -, stands⟩ := standing word member
  exact stands.isToken.kind_ne

theorem words_of_ofText {unit : CompUnit} (parsed : CompUnit.ofText file text = .ok unit) :
    Clean text ∧ Grammar.TopLevel (wordsAt file [] (pieces text)) unit.items ∧
      ∀ item ∈ unit.items, item.NearestElse := by
  cases scanned : Token.scan file text with
  | error => simp [CompUnit.ofText, scanned, bind, Except.bind] at parsed
  | ok =>
    have plain := plain_wordsAt scanned
    rw [ofText_of_scan scanned] at parsed
    obtain ⟨clean, rfl⟩ := scan_eq_ok_iff.mp scanned
    obtain ⟨derived, nearest, -⟩ := CompUnit.program_of_ofTokens rfl plain parsed
    exact ⟨clean, derived, nearest⟩

theorem exists_word_of_report (scanned : Token.scan file text = .ok tokens)
    (failed : CompUnit.ofTokens file tokens = .error reports) (given : reports[index]? = some report)
    (mends : Mends kind report.problem) :
    ∃ left value right word, pieces text = left ++ (.token word.kind, value) :: right ∧
      word = tokenAfter file (written left) word.kind value ∧ word.span = report.span ∧
      ∀ other ∈ wordsAt file [] left ++ wordsAt file (written left ++ value) right, other.span ≠ report.span := by
  have plain := plain_wordsAt scanned
  have sorted := pairwise_wordsAt scanned
  obtain ⟨_, rfl⟩ := scan_eq_ok_iff.mp scanned
  let mending : Mending := { mark := ⟨kind, "", report.span⟩, target := report, index, fits := mends }
  obtain ⟨word, member, named⟩ := @Mending.exists_token_of_report mending _ _ _ rfl plain _ failed given
  obtain ⟨_, _, around⟩ := mem_iff_append.mp member
  obtain ⟨left, value, right, split, rfl, shape, rfl⟩ := wordsAt_split around
  simp only [nil_append] at shape around
  refine ⟨left, value, right, word, split, shape, named, ?_⟩
  have ordered := (stands_of_pieces split shape).ordered
  rw [around, pairwise_append, pairwise_cons] at sorted
  obtain ⟨-, ⟨later, -⟩, earlier⟩ := sorted
  intro other among same
  rw [← named] at same
  rcases mem_append.mp among with among | among
  · have ahead := earlier other among word mem_cons_self
    rw [same] at ahead
    exact ordered.not_before ahead
  · have ahead := later other among
    rw [same] at ahead
    exact ordered.not_before ahead

/-! ## The text with the mark -/

theorem scan_insert {file : String} {text value : Text} {left right : List (Lexeme × Text)}
    {kind markKind : TokenKind} {mark : Char} (clean : Clean text)
    (split : pieces text = left ++ (.token kind, value) :: right) (delimits : isDelimiter mark = true)
    (isMark : TokenKind.ofChar? mark = some markKind) :
    ∃ stop, stop.kind = .endOfInput ∧
      Token.scan file (written left ++ value ++ mark :: written right) = .ok
        (wordsAt file [] (left ++ [(.token kind, value)]) ++
          tokenAfter file (written left ++ value) markKind [mark] ::
            wordsAt file (written left ++ value ++ [mark]) right ++ [stop]) := by
  have inserted := pieces_insert clean split delimits isMark
  refine ⟨tokenAfter file (written left ++ value ++ mark :: written right) .endOfInput [], rfl,
    scan_eq_ok_iff.mpr ⟨?_, ?_⟩⟩
  · intro piece member
    rw [inserted] at member
    have old : piece = (.token markKind, [mark]) ∨ piece ∈ pieces text := by
      rw [split]
      simp only [mem_append, mem_cons] at member ⊢
      tauto
    rcases old with rfl | old
    · exact .inr ⟨_, rfl⟩
    · exact clean piece old
  · rw [inserted]
    simp [wordsAt_append, wordsAt]

theorem ofTokens_insert (scanned : Token.scan file text = .ok tokens)
    (failed : CompUnit.ofTokens file tokens = .error reports) (given : reports[index]? = some report)
    (mark : Token) (mends : Mends mark.kind report.problem) {left right : List (Lexeme × Text)}
    (split : pieces text = left ++ (.token kind, value) :: right)
    (elsewhere : ∀ other ∈ wordsAt file [] left ++ wordsAt file (written left ++ value) right, other.span ≠ report.span)
    (behind : Text) {stop : Token} (stops : stop.kind = .endOfInput) :
    let tokens' := wordsAt file [] (left ++ [(.token kind, value)]) ++ mark :: wordsAt file behind right ++ [stop]
    (∃ unit, CompUnit.ofTokens file tokens' = .ok unit ∧ reports.eraseIdx index = []) ∨
      ∃ reports', CompUnit.ofTokens file tokens' = .error reports' ∧ reports.eraseIdx index ≠ [] ∧
        reports'.map (·.problem.code) = (reports.eraseIdx index).map (·.problem.code) := by
  intro tokens'
  have plain := plain_wordsAt scanned
  obtain ⟨-, rfl⟩ := scan_eq_ok_iff.mp scanned
  have words : wordsAt file [] (pieces text) =
      wordsAt file [] (left ++ [(.token kind, value)]) ++ wordsAt file (written left ++ value) right := by
    rw [split, wordsAt_append, wordsAt_append]
    simp [wordsAt]
  rw [words] at plain failed
  have last : wordsAt file [] (left ++ [(.token kind, value)]) =
      wordsAt file [] left ++ [tokenAfter file (written left) kind value] := by
    rw [wordsAt_append]
    simp [wordsAt]
  let mending : Mending := { mark, target := report, index, fits := mends }
  refine @Mending.ofTokens_mended mending _ _ _ _ _ _ _ _ rfl stops plain _ failed given ?_ ?_ rfl ?_
  · simp [last]
  · rwa [last, dropLast_concat]
  · rw [kinds_wordsAt, kinds_wordsAt]

/-- The fix for a missing semicolon, parenthesis or bracket takes away the report that it is for, and no
other. The text with its edit has no lexical problem; it is a program if there was no other report, and
else its reports have the codes of the others in their order. Only in a text that is longer than a
position can count a report cannot be shown. -/
theorem mark_removes_report {file : String} {text : Text} {tokens : List Token}
    (scanned : Token.scan file text = .ok tokens) {before after : List Report} {report : Report}
    (failed : CompUnit.ofText file text = .error (before ++ report :: after)) {mark : Char}
    {resolver : Resolver} (puts : PutsIn mark resolver report.problem) (message : String)
    (category : Category) (source uri : String) (number : Nat) :
    ((text.length : Int) ≤ Coordinate.limit →
      ∃ notice, Notice.ofDiagnostic (.text source)
        { Diagnostic.ofReport report with message, category } = .ok notice) ∧
    ∀ notice, Notice.ofDiagnostic (.text source) { Diagnostic.ofReport report with message, category } = .ok notice →
      ∃ action edits, resolver { document := { uri, text }, notice, number } = .ok (some action) ∧
        action.effect = .edits uri edits ∧
        (∃ tokens', Token.scan file (Edit.applyAll text edits) = .ok tokens') ∧
        ((before ++ after = [] ∧ ∃ unit, CompUnit.ofText file (Edit.applyAll text edits) = .ok unit) ∨
          before ++ after ≠ [] ∧ ∃ reports, CompUnit.ofText file (Edit.applyAll text edits) = .error reports ∧
            reports.map (·.problem.code) = (before ++ after).map (·.problem.code)) := by
  obtain ⟨markKind, isMark, mends⟩ := puts.mends
  have failedTokens := (ofText_of_scan scanned).symm.trans failed
  have given : (before ++ report :: after)[before.length]? = some report := by simp
  obtain ⟨left, value, right, _, split, shape, named, elsewhere⟩ :=
    exists_word_of_report scanned failedTokens given mends
  have stands := stands_of_pieces split shape
  refine ⟨?_, ?_⟩
  · intro short
    obtain ⟨_, found⟩ := stands.exists_toRange short
    rw [named] at found
    simp only [Notice.ofDiagnostic, Diagnostic.ofReport, Diagnostic.span?, head?_cons, Option.map_some, found]
    exact ⟨_, rfl⟩
  · intro notice shown
    obtain ⟨found, data⟩ := notice_of_report shown
    obtain ⟨action, resolved, effect⟩ := puts.resolves data
    have place := stop_eq stands (named ▸ found)
    have whole : text = written left ++ value ++ written right := by
      rw [← written_pieces text, split]
      simp
    refine ⟨action, _, resolved, effect, ?_⟩
    rw [place]
    have edited := Edit.applyAll_insert (written left ++ value) [mark] (written right)
    rw [← whole, append_assoc _ [mark], singleton_append] at edited
    rw [edited]
    have clean := (scan_eq_ok_iff.mp scanned).1
    obtain ⟨_, stops, scanned'⟩ := @scan_insert file _ _ _ _ _ _ _ clean split puts.isDelimiter isMark
    refine ⟨⟨_, scanned'⟩, ?_⟩
    have erased : (before ++ report :: after).eraseIdx before.length = before ++ after := by
      simp [eraseIdx_append_of_length_le]
    have outcome := ofTokens_insert scanned failedTokens given
      (tokenAfter file (written left ++ value) markKind [mark]) mends split elsewhere
      (written left ++ value ++ [mark]) stops
    rw [erased] at outcome
    rw [ofText_of_scan scanned']
    rcases outcome with ⟨unit, read, alone⟩ | ⟨reports, read, others, codes⟩
    · exact .inl ⟨alone, unit, read⟩
    · exact .inr ⟨others, reports, read, codes⟩

/-- Three marks are missing at one place, and the fix for the second of them leaves the other two. -/
theorem mark_removes_report_between :
    ∃ notice action edits reports, insertBracket ⟨⟨"t.sy", "int f()\x7breturn g(a[1\x7d".toList⟩, notice, 0⟩ =
        .ok (some action) ∧ action.effect = .edits "t.sy" edits ∧
      CompUnit.ofText "t.sy" (Edit.applyAll "int f()\x7breturn g(a[1\x7d".toList edits) = .error reports ∧
      reports.map (·.problem.code) = [.unmatchedBrackets, .missingSemicolon] := by
  have scanned : ∃ tokens, Token.scan "t.sy" "int f()\x7breturn g(a[1\x7d".toList = .ok tokens := ⟨_, by cbv⟩
  obtain ⟨_, scanned⟩ := scanned
  have failed : CompUnit.ofText "t.sy" "int f()\x7breturn g(a[1\x7d".toList =
      .error ([⟨.missingBracket ']' "1", ⟨"t.sy", 1, 20, 1, 20⟩⟩] ++
        ⟨.missingBracket ')' "1", ⟨"t.sy", 1, 20, 1, 20⟩⟩ ::
          [⟨.missingSemicolon "1", ⟨"t.sy", 1, 20, 1, 20⟩⟩]) := by
    cbv
  obtain ⟨shown, fixed⟩ := mark_removes_report scanned failed .paren "" .other "sysy" "t.sy" 0
  obtain ⟨notice, given⟩ := shown (by decide)
  obtain ⟨action, edits, resolved, effect, -, ⟨alone, -⟩ | ⟨-, reports, read, codes⟩⟩ := fixed notice given
  · cases alone
  · exact ⟨notice, action, edits, reports, resolved, effect, read, codes⟩

end Fix

end SysYTools
