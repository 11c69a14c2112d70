import SysYTools.Fix.Flow
import SysYTools.Proofs.Position
import SysYTools.Proofs.Token.Partner
import SysYTools.Proofs.Token.Spacing

/-!
Where the repair puts a return statement: behind all words of a body, outside of comments, and so that it joins
nothing. If only blanks stand before the closing brace in its line, the statement gets a line of its own.
-/

namespace SysYTools

open List Lexis Lexeme

variable {run : Text} {stop : Char}

/-! ## Lines -/

theorem Document.take_line (uri : String) (before after : Text) :
    (Document.line ⟨uri, before ++ after⟩ (before.count '\n')).take before.lastLine.length = before.lastLine := by
  have present : before.count '\n' < (before ++ after).lines.length := by
    obtain ⟨line, _, rest, -⟩ := Text.lines_cut before after
    by_contra beyond
    rw [drop_eq_nil_of_le (Nat.le_of_not_lt beyond)] at rest
    cases rest
  obtain ⟨start, _, split, -, fresh, plain, -, offset⟩ :=
    @Document.exists_cut_at ⟨uri, before ++ after⟩ ⟨before.count '\n', before.lastLine.length⟩ present
  dsimp only at split plain offset
  generalize Document.line ⟨uri, before ++ after⟩ (before.count '\n') = line at *
  have length : before.length = start.length + min before.lastLine.length line.length := by
    rw [← offset, Document.offsetAt_after uri (prefix_append before after)]
  have taken : before = start ++ line.take before.lastLine.length := by
    have whole := congrArg (List.take before.length) split
    rw [take_left, length, append_assoc, take_length_add_append, take_append_of_le_length (by simp),
      ← take_eq_take_min] at whole
    exact whole
  have last := congrArg Text.lastLine taken
  rw [Text.lastLine_append_of_no_feed _ fun feed => plain (mem_of_mem_take feed), fresh, nil_append] at last
  exact last.symm

theorem Text.indentation_blank (line : Text) : ∀ c ∈ line.indentation, isGapChar c = true := by
  intro c member
  have blank := mem_takeWhile_imp member
  simp only [Bool.or_eq_true, beq_iff_eq] at blank
  rcases blank with rfl | rfl <;> rfl

theorem Text.exists_lastLine {text : Text} (feed : '\n' ∈ text) : ∃ front, text = front ++ '\n' :: text.lastLine := by
  induction text with
  | nil => cases feed
  | cons c rest ih =>
    rw [lastLine_cons, if_neg (fun alone => not_mem_cons_of_ne_of_not_mem alone.1.symm alone.2 feed)]
    by_cases later : '\n' ∈ rest
    · obtain ⟨front, split⟩ := ih later
      exact ⟨c :: front, by rw [cons_append, ← split]⟩
    · obtain rfl : '\n' = c := (mem_cons.mp feed).resolve_right later
      exact ⟨[], by rw [lastLine_of_no_feed later, nil_append]⟩

theorem Text.feed_not_mem_lastLine (text : Text) : '\n' ∉ text.lastLine := by
  intro member
  simpa using mem_takeWhile_imp (mem_reverse.mp member)

theorem Text.find?_append {before between after : Text} {c : Char} (absent : c ∉ between) :
    Text.find? (before ++ (between ++ c :: after)) c before.length = some (before ++ between).length := by
  have none : between.findIdx? (· == c) = none := by
    refine findIdx?_eq_none_iff.mpr fun other member => beq_eq_false_iff_ne.mpr ?_
    rintro rfl
    exact absent member
  rw [find?, drop_left, findIdx?_append, none, findIdx?_cons]
  simp

/-! ## Pieces -/

namespace Lexis

theorem pieces_blanks (blank : ∀ c ∈ run, isGapChar c = true) (rest : Text) :
    pieces (run ++ rest) = run.map (fun c => (.gap, [c])) ++ pieces rest := by
  induction run with
  | nil => rfl
  | cons _ _ ih =>
    obtain ⟨own, others⟩ := forall_mem_cons.mp blank
    rw [cons_append, pieces_cons_blank own, ih others, map_cons, cons_append]

theorem Fits.exists_blank_line {list : List Piece} (fits : Fits list) {front : Text}
    (split : written list = front ++ '\n' :: run) (blank : ∀ c ∈ run, isBlank c = true) (plain : '\n' ∉ run) :
    ∃ left gaps, list = left ++ (.gap, ['\n']) :: gaps ∧ written gaps = run ∧ wordsOf gaps = [] := by
  induction list using List.reverseRecOn generalizing run with
  | nil => simp at split
  | append_singleton list piece ih =>
    obtain ⟨lexeme, value⟩ := piece
    rw [written_append, written_cons, written_nil, append_nil] at split
    have blankEnd : ∀ c ∈ ('\n' :: run).getLast?, isBlank c = true := by
      intro c last
      rcases mem_cons.mp (mem_of_getLast? last) with rfl | member
      · rfl
      · exact blank c member
    have lastBlank : value ≠ [] → ∀ c ∈ value.getLast?, isBlank c = true := by
      intro some c last
      refine blankEnd c ?_
      have whole := congrArg List.getLast? split
      rw [getLast?_append_of_ne_nil _ some, getLast?_append_of_ne_nil _ (cons_ne_nil _ _)] at whole
      rwa [← whole]
    rcases fits.sound (lexeme, value) (by simp) with isGap | ⟨_, isToken⟩
    · cases isGap
      cases fits.right.gap with
      | @blank c _ isBlank =>
        rcases eq_nil_or_concat run with rfl | ⟨run, d, rfl⟩
        · obtain ⟨same, isFeed⟩ := append_inj' split rfl
          cases isFeed
          exact ⟨list, [], rfl, rfl, rfl⟩
        · have split' : written list ++ [c] = (front ++ '\n' :: run) ++ [d] := by simpa using split
          obtain ⟨same, isLast⟩ := append_inj' split' rfl
          cases isLast
          obtain ⟨left, gaps, rfl, found, none⟩ := ih fits.left same (fun c member => blank c (by simp [member]))
            (fun feed => plain (by simp [feed]))
          refine ⟨left, gaps ++ [(.gap, [c])], by simp, by simp [found], ?_⟩
          rw [wordsOf_append, none]
          rfl
      | @line body _ noFeed _ =>
        have clear : '\n' ∉ '/' :: '/' :: body := by simp [noFeed]
        have slash : isBlank '/' = false := rfl
        dsimp only at split
        rcases append_eq_append_iff.mp split with ⟨middle, -, rest⟩ | ⟨middle, -, rest⟩
        · exact absurd (rest ▸ by simp) clear
        · cases middle with
          | nil =>
            rw [nil_append] at rest
            exact absurd (rest ▸ mem_cons_self) clear
          | cons =>
            obtain ⟨-, rfl⟩ := List.cons.inj rest
            have seen := blank '/' (by simp)
            rw [slash] at seen
            cases seen
      | @block body _ _ =>
        have ends : ('/' :: '*' :: body ++ ['*', '/']).getLast? = some '/' := by
          rw [getLast?_append_of_ne_nil _ (by simp)]
          rfl
        cases lastBlank (by simp) '/' ends
    · cases isToken
      have token := fits.isToken (mem_append_right list mem_cons_self)
      obtain ⟨c, isLast⟩ := Option.ne_none_iff_exists'.mp (mt getLast?_eq_none_iff.mp token.ne_nil)
      have seen := lastBlank token.ne_nil c isLast
      rw [token.not_blank c (mem_of_getLast? isLast)] at seen
      cases seen

theorem Fits.apart_of_brace {list behind : List Piece}
    (fits : Fits (list ++ (.token .rightBrace, ['\x7d']) :: behind)) {last : Piece} (isLast : last ∈ list.getLast?)
    (sign : ∀ kind, last.1 = .token kind → kind.isSign = true) (new : Text) : Apart last.2 new := by
  obtain ⟨front, rfl⟩ := getLast?_eq_some_iff.mp isLast
  rw [append_assoc, singleton_append] at fits
  obtain ⟨lexeme, value⟩ := last
  rcases fits.sound (lexeme, value) (by simp) with isGap | ⟨kind, isToken⟩
  · cases isGap
    cases fits.right.gap with
    | @blank c _ blank =>
      refine ⟨fun slashes => ?_, fun _ _ _ last isLast => ?_⟩
      · exact absurd slashes.length_le (by simp)
      · obtain rfl : c = last := by simpa using isLast
        have delimits : isDelimiter c = true := by simp [isDelimiter, blank]
        refine ⟨not_isNameChar_of_isDelimiter delimits, ?_⟩
        rintro rfl
        cases blank
    | line _ stops => simp at stops
    | @block body _ _ =>
      have ends : ('/' :: '*' :: body ++ ['*', '/']).getLast? = some '/' := by
        rw [getLast?_append_of_ne_nil _ (by simp)]
        rfl
      refine ⟨fun slashes => ?_, fun _ _ _ last isLast => ?_⟩
      · simp at slashes
      · rw [ends] at isLast
        cases isLast
        decide
  · cases isToken
    have joinless : ∀ kind : TokenKind, kind.isSign = true →
        isNameChar kind.signChar = false ∧ kind.signChar ≠ '.' := by
      intro kind
      cases kind <;> decide
    have isSign := sign kind rfl
    have form := (fits.isToken (mem_append_right front mem_cons_self)).sign isSign
    refine ⟨fun slashes => ?_, fun _ _ _ last isLast => ?_⟩
    · rw [form] at slashes
      exact absurd slashes.length_le (by simp)
    · obtain rfl : kind.signChar = last := by simpa [form] using isLast
      exact joinless kind isSign

end Lexis

/-! ## The statement -/

def BaseType.literalKind : BaseType → TokenKind
  | .int => .integerLiteral
  | .float => .floatLiteral

namespace Repair

def returnPieces (type : BaseType) : List Piece :=
  [(.token .returnKeyword, "return".toList), (.gap, [' ']),
    (.token type.literalKind, (Literal.placeholder type.name).toList), (.token .semicolon, [';'])]

def returnInsert (run : Text) (type : BaseType) (stop : Char) : List Piece :=
  run.map (fun c => (.gap, [c])) ++ (returnPieces type ++ [(.gap, [stop])])

theorem sound_returnInsert {type : BaseType} : ∀ piece ∈ returnInsert run type stop, Sound piece := by
  intro piece member
  rcases mem_append.mp member with isBlank | member
  · obtain ⟨c, -, rfl⟩ := mem_map.mp isBlank
    exact .inl rfl
  · simp only [returnPieces, cons_append, nil_append, mem_cons, not_mem_nil, or_false] at member
    rcases member with rfl | rfl | rfl | rfl | rfl <;> first | exact .inl rfl | exact .inr ⟨_, rfl⟩

theorem pieces_returnText (type : BaseType) (blank : isGapChar stop = true) (rest : Text) :
    pieces (returnText type.name ++ stop :: rest) = returnPieces type ++ (.gap, [stop]) :: pieces rest := by
  have keyword : pieces "return".toList = [(.token .returnKeyword, "return".toList)] := by cbv
  have number : pieces ((Literal.placeholder type.name).toList ++ [';']) =
      [(.token type.literalKind, (Literal.placeholder type.name).toList), (.token .semicolon, [';'])] := by
    cases type <;> cbv
  have shape : returnText type.name ++ stop :: rest =
      "return".toList ++ ' ' :: (((Literal.placeholder type.name).toList ++ [';']) ++ stop :: rest) := by
    cases type <;> rfl
  have solid : Solid "return".toList := by
    intro piece member
    rw [keyword] at member
    rw [mem_singleton.mp member]
    exact ⟨_, rfl⟩
  have delimits : isDelimiter stop = true := by simp [isDelimiter, blank]
  have behind : pieces (((Literal.placeholder type.name).toList ++ [';']) ++ stop :: rest) =
      pieces ((Literal.placeholder type.name).toList ++ [';']) ++ pieces (stop :: rest) := by
    refine pieces_append ?_ (.of_isDelimiter delimits) ?_
    · intro piece member
      rw [number] at member
      simp only [mem_cons, not_mem_nil, or_false] at member
      rcases member with rfl | rfl <;> exact .inr ⟨_, rfl⟩
    · intro last ends
      rw [number] at ends
      obtain rfl : (.token .semicolon, [';']) = last := Option.some.inj ends
      exact .of_isDelimiter delimits (by decide)
  rw [shape, solid.pieces_append_blank, behind, number, pieces_cons_blank blank, keyword]
  rfl

theorem pieces_return {left right : List Piece} (fits : Fits (left ++ right))
    (apart : ∀ last ∈ left.getLast?, ∀ new, Apart last.2 new)
    (blank : ∀ c ∈ run, isGapChar c = true) (type : BaseType) (stops : isGapChar stop = true) :
    pieces (written left ++ (run ++ returnText type.name ++ [stop]) ++ written right) =
      left ++ (returnInsert run type stop ++ right) := by
  have gentle : Gentle (run ++ (returnText type.name ++ stop :: written right)) := by
    intro c head
    cases run with
    | nil =>
      obtain rfl : 'r' = c := by cases type <;> exact Option.some.inj head
      exact .inr rfl
    | cons first =>
      obtain rfl : first = c := Option.some.inj head
      exact .inl (by simp [isDelimiter, blank first])
  have split : written left ++ (run ++ returnText type.name ++ [stop]) ++ written right =
      written left ++ (run ++ (returnText type.name ++ stop :: written right)) := by simp
  rw [split, pieces_swap fits.pieces (fun piece member => fits.sound piece (mem_append_left _ member)) gentle
    fun last isLast => apart last isLast _, pieces_blanks blank, pieces_returnText type stops, fits.right.pieces,
    returnInsert]
  simp

theorem indentation_getD_blank (document : Document) (first last : Nat) (line : Text) :
    ∀ c ∈ (innerIndentation? document first last).getD (line.indentation ++ indentUnit), isGapChar c = true := by
  intro c member
  cases found : innerIndentation? document first last with
  | some =>
    rw [found, Option.getD_some] at member
    obtain ⟨other, -, rfl⟩ := Option.map_eq_some_iff.mp found
    exact other.indentation_blank c member
  | none =>
    rw [found, Option.getD_none] at member
    rcases mem_append.mp member with own | unit
    · exact line.indentation_blank c own
    · simp only [indentUnit, mem_cons, not_mem_nil, or_false, or_self] at unit
      rw [unit]
      rfl

theorem exists_returnEdit {ahead inner behind : List Piece}
    (fits : Fits (ahead ++ (.token .leftBrace, ['\x7b']) :: (inner ++ (.token .rightBrace, ['\x7d']) :: behind)))
    (balanced : Balanced (wordsOf inner))
    (closed : ∀ last ∈ ((Lexeme.token .leftBrace, ['\x7b']) :: inner).getLast?, ∀ kind, last.1 = .token kind →
      kind.isSign = true) {document : Document} (isText : document.text =
      written (ahead ++ (.token .leftBrace, ['\x7b']) :: (inner ++ (.token .rightBrace, ['\x7d']) :: behind)))
    {start : Position} (found : document.text.find? '\x7b' (document.offsetAt start) = some (written ahead).length)
    (type : BaseType) :
    ∃ left gaps run stop, ahead ++ (.token .leftBrace, ['\x7b']) :: inner = left ++ gaps ∧ wordsOf gaps = [] ∧
      (∀ last ∈ left.getLast?, ∀ new, Apart last.2 new) ∧ (∀ c ∈ run, isGapChar c = true) ∧
      isGapChar stop = true ∧ returnEdit document start type.name =
        some (.insert ⟨(written left).count '\n', (written left).lastLine.length⟩
          (run ++ returnText type.name ++ [stop])) := by
  generalize whole : ahead ++ (Lexeme.token .leftBrace, ['\x7b']) :: inner = list
  have shape : ahead ++ (Lexeme.token .leftBrace, ['\x7b']) :: (inner ++ (.token .rightBrace, ['\x7d']) :: behind) =
      list ++ (.token .rightBrace, ['\x7d']) :: behind := by
    rw [← whole]
    simp
  have closing : document.text.closingIndex? (written ahead).length = some (written list).length := by
    rw [isText, fits.closingIndex?_group rfl balanced, ← whole, written_append, written_cons, length_append,
      length_append, length_singleton, Nat.add_assoc]
  rw [shape] at fits isText
  obtain ⟨uri, _⟩ := document
  dsimp only at isText found closing
  rw [written_append] at isText
  subst isText
  have place := Document.positionAt_length uri (written list) (written ((.token .rightBrace, ['\x7d']) :: behind))
  have taken := Document.take_line uri (written list) (written ((.token .rightBrace, ['\x7d']) :: behind))
  by_cases blank : (written list).lastLine.isAllBlank = true
  · have feed : '\n' ∈ written list := by
      by_contra none
      rw [Text.lastLine_of_no_feed none, ← whole, Text.isAllBlank, all_eq_true] at blank
      cases blank '\x7b' (by simp)
    have edits : ∃ run, (∀ c ∈ run, isGapChar c = true) ∧
        returnEdit ⟨uri, written list ++ written ((.token .rightBrace, ['\x7d']) :: behind)⟩ start type.name =
          some (.insert ⟨(written list).count '\n', 0⟩ (run ++ returnText type.name ++ ['\n'])) := by
      simp only [returnEdit, found, closing, place, taken, Option.bind_eq_bind, Option.bind_some]
      rw [if_pos blank]
      exact ⟨_, indentation_getD_blank _ _ _ _, rfl⟩
    obtain ⟨run, blanks, edited⟩ := edits
    obtain ⟨_, split⟩ := Text.exists_lastLine feed
    obtain ⟨left, gaps, rfl, isLine, none⟩ := fits.left.exists_blank_line split
      (fun c member => all_eq_true.mp blank c member) (Text.feed_not_mem_lastLine _)
    have plain : '\n' ∉ written gaps := isLine ▸ Text.feed_not_mem_lastLine _
    refine ⟨left ++ [(.gap, ['\n'])], gaps, run, '\n', by simp, none, fun last isLast new => ?_, blanks, rfl, ?_⟩
    · obtain rfl : (.gap, ['\n']) = last := by simpa using isLast
      exact ⟨fun slashes => absurd slashes.length_le (by simp), fun _ _ _ last isLast => by
        obtain rfl : '\n' = last := by simpa using isLast
        decide⟩
    · have count : (written (left ++ (.gap, ['\n']) :: gaps)).count '\n' =
          (written (left ++ [(.gap, ['\n'])])).count '\n' := by
        simp [count_eq_zero.mpr plain]
      have last : (written (left ++ [(Lexeme.gap, ['\n'])])).lastLine = [] := by
        rw [written_append]
        exact Text.lastLine_append_feed _
      rw [edited, count, last]
      rfl
  · refine ⟨list, [], [], ' ', by simp, rfl, fun last isLast new => ?_, nofun, rfl, ?_⟩
    · refine fits.apart_of_brace isLast (closed last ?_) new
      rwa [← whole, getLast?_append_of_ne_nil _ (cons_ne_nil _ _)] at isLast
    · simp only [returnEdit, found, closing, place, taken, Option.bind_eq_bind, Option.bind_some]
      rw [if_neg blank]
      rfl

end Repair

end SysYTools
