import SysYTools.Proofs.Repair.Growth
import SysYTools.Proofs.Tree.Rewriting

/-!
Heads of arrays in the text of a program. A head that is read from the text starts at the name of a
definition: in all other words of a program none is read, whatever stands in their comments. Where one is
read, its words are those of the definition, up to the brace that opens its initializer.
-/

namespace SysYTools

open List Lexis

variable {after brace front rest sign start text : Text} {commas : Bool} {words : List Word}

namespace Repair

open Text

/-! ## Brackets behind brackets -/

/-- Every index bracket in the words has one behind it that may close it. -/
def Closes : List Word → Prop
  | [] => True
  | (kind, _) :: rest => (kind = .leftBracket → ∃ value, (TokenKind.rightBracket, value) ∈ rest) ∧ Closes rest

theorem Closes.append {left right : List Word} (first : Closes left) (second : Closes right) :
    Closes (left ++ right) := by
  induction left with
  | nil => exact second
  | cons _ _ ih =>
    refine ⟨fun opens => ?_, ih first.2⟩
    obtain ⟨value, member⟩ := first.1 opens
    exact ⟨value, mem_append_left _ member⟩

theorem Closes.right {left right : List Word} (closes : Closes (left ++ right)) : Closes right := by
  induction left with
  | nil => exact closes
  | cons _ _ ih => exact ih closes.2

theorem closes_of_nest (nest : Nest commas words) : Closes words := by
  induction nest with
  | nil => trivial
  | plain isPlain _ ih =>
    refine ⟨?_, ih⟩
    rintro rfl
    cases isPlain
  | comma _ ih => exact ⟨by simp, ih⟩
  | group encloses _ _ insideHypothesis ih =>
    refine ⟨?_, insideHypothesis.append ⟨?_, ih⟩⟩
    · rintro rfl
      cases encloses
      exact ⟨_, mem_append_right _ mem_cons_self⟩
    · rintro rfl
      cases encloses

theorem not_assign_of_nest (nest : Nest commas words) : ∀ word ∈ words, word.1 ≠ .assign := by
  induction nest with
  | nil => simp
  | plain isPlain _ ih =>
    refine forall_mem_cons.mpr ⟨?_, ih⟩
    rintro rfl
    cases isPlain
  | comma _ ih => exact forall_mem_cons.mpr ⟨by simp, ih⟩
  | group encloses _ _ insideHypothesis ih =>
    refine forall_mem_cons.mpr ⟨?_, forall_mem_append.mpr ⟨insideHypothesis, forall_mem_cons.mpr ⟨?_, ih⟩⟩⟩
    all_goals cases encloses <;> simp

theorem dropWhile_until (back : Text) (first : ']' ∉ front) :
    (front ++ ']' :: back).dropWhile (· != ']') = ']' :: back := by
  rw [dropWhile_append_of_pos]
  · rfl
  · intro c member
    have other : c ≠ ']' := ne_of_mem_of_not_mem member first
    simpa using other

theorem exists_closing {list : List Piece} (fits : Fits list) (quiet : Quiet list) {value : Text}
    (member : (TokenKind.rightBracket, value) ∈ wordsOf list) :
    ∃ inside rest, list = inside ++ (.token .rightBracket, [']']) :: rest ∧ ']' ∉ written inside := by
  have isPiece := mem_wordsOf member
  obtain rfl : value = [']'] := (fits.isToken isPiece).sign rfl
  obtain ⟨inside, rest, rfl, first⟩ := eq_append_cons_of_mem isPiece
  refine ⟨inside, rest, rfl, fun within => first ?_⟩
  obtain ⟨_, isPart, inPiece⟩ := mem_flatMap.mp within
  obtain ⟨_, rfl, kindOf⟩ := fits.eq_sign quiet (mem_append_left _ isPart) inPiece rfl
  cases kindOf
  exact isPart

theorem skipBrackets_pieces {list after : List Piece} (fits : Fits (list ++ after)) (quiet : Quiet (list ++ after))
    (closes : Closes (wordsOf list)) (ends : ∀ word rest, wordsOf after = word :: rest → word.1 ≠ .leftBracket) :
    ∃ passed list', list = passed ++ list' ∧ skipBrackets (written (list ++ after)) = written (list' ++ after) := by
  generalize shape : written (list ++ after) = text
  fun_induction skipBrackets text generalizing list with
  | case2 text | case3 text => exact ⟨[], list, rfl, shape.symm⟩
  | case1 _ _ opens c rest closed ih =>
    obtain ⟨_, rfl, blank, -⟩ := stripLeft_eq opens
    obtain ⟨blanks, piece, others, more, split, -, noWords, starts, rfl⟩ := fits.blank_append shape blank rfl
    have member : piece ∈ list ++ after := by rw [split]; simp
    obtain ⟨_, rfl, kindOf⟩ := fits.eq_sign quiet member (c := '[') (by rw [starts]; simp) rfl
    cases kindOf
    obtain rfl : more = [] := (List.cons.inj starts).2.symm
    have outside : ∀ front back, after = front ++ (Lexeme.token .leftBracket, ['[']) :: back →
        wordsOf front ≠ [] := by
      rintro front back rfl none
      have first := ends (.leftBracket, ['[']) (wordsOf back) (by rw [wordsOf_append, none]; rfl)
      exact first rfl
    obtain ⟨inner, rfl, rfl⟩ : ∃ inner, list = blanks ++ (.token .leftBracket, ['[']) :: inner ∧
        others = inner ++ after := by
      rcases append_eq_append_iff.mp split with ⟨front, rfl, back⟩ | ⟨front, whole, back⟩
      · rw [wordsOf_append, append_eq_nil_iff] at noWords
        exact absurd noWords.2 (outside front others back)
      · cases front with
        | nil => exact absurd rfl (outside [] others back.symm)
        | cons _ inner =>
          obtain ⟨rfl, rfl⟩ := List.cons.inj back
          exact ⟨inner, whole, rfl⟩
    have closes' : Closes ((TokenKind.leftBracket, ['[']) :: wordsOf inner) := by
      rw [wordsOf_append] at closes
      exact closes.right
    obtain ⟨_, isClosing⟩ := closes'.1 rfl
    have split' : blanks ++ (Lexeme.token .leftBracket, ['[']) :: inner ++ after =
        (blanks ++ [(Lexeme.token .leftBracket, ['['])]) ++ (inner ++ after) := by simp
    have fitsInner : Fits (inner ++ after) := (split' ▸ fits).right
    have quietInner : Quiet (inner ++ after) := (split' ▸ quiet).right
    obtain ⟨index, list', rfl, first⟩ := exists_closing fitsInner.left quietInner.left isClosing
    have rejoined : index ++ (Lexeme.token .rightBracket, [']']) :: list' ++ after =
        (index ++ [(Lexeme.token .rightBracket, [']'])]) ++ (list' ++ after) := by simp
    have dropped := dropWhile_until (written (list' ++ after)) first
    have same : [] ++ written (index ++ (Lexeme.token .rightBracket, [']']) :: list' ++ after) =
        written index ++ ']' :: written (list' ++ after) := by simp
    rw [same, dropped] at closed
    obtain ⟨rfl, rfl⟩ := List.cons.inj closed
    rw [wordsOf_append] at closes'
    obtain ⟨passed, rest, rfl, skipped⟩ := ih (rejoined ▸ fitsInner).right (rejoined ▸ quietInner).right
      closes'.2.right.2 rfl
    refine ⟨blanks ++ (Lexeme.token .leftBracket, ['[']) :: (index ++ (.token .rightBracket, [']']) :: passed),
      rest, by simp, skipped⟩

/-- Where a head that is read from a text of pieces lies in them. -/
structure HeadPlace (list after : List Piece) (head : ArrayHead) (front outer left right : Text)
    (before inside behind mid rest : List Piece) : Prop where
  list : list = before ++ (.token .leftBracket, ['[']) :: (inside ++ (.token .rightBracket, [']']) :: behind)
  after : after = mid ++ rest
  before : written before = front ++ (head.name ++ outer)
  inside : written inside = left ++ head.digits ++ right
  opening : wordsOf mid = [(.assign, ['=']), (.leftBrace, ['\x7b'])]
  last : (Lexeme.token .leftBrace, ['\x7b']) ∈ mid.getLast?

theorem exists_opening {list : List Piece} (fits : Fits list) (quiet : Quiet list)
    (split : written list = sign ++ '=' :: (brace ++ '\x7b' :: after))
    (blank : ∀ c ∈ sign ++ brace, isBlank c = true) :
    ∃ first second rest, list = first ++ (.token .assign, ['=']) :: (second ++ (.token .leftBrace, ['\x7b']) :: rest) ∧
      wordsOf first = [] ∧ wordsOf second = [] ∧ written rest = after := by
  obtain ⟨signBlank, braceBlank⟩ := forall_mem_append.mp blank
  obtain ⟨first, ⟨lexeme, value⟩, _, more, rfl, -, noWords, starts, follows⟩ := fits.blank_append split signBlank rfl
  obtain rfl : value = '=' :: more := starts
  -- the piece is no comparison, since a brace comes after white space
  obtain ⟨rfl, rfl⟩ : lexeme = .token .assign ∧ more = [] := by
    rcases fits.sound _ (mem_append_right _ mem_cons_self) with rfl | ⟨kind, rfl⟩
    · cases fits.right.gap with
      | blank isGap => cases isGap
    · have symbol := (fits.right.isToken mem_cons_self).isSymbol rfl rfl rfl
      have shapes : ∀ entry ∈ symbols, ∀ more, entry.1 = '=' :: more →
          (more = [] ∧ entry.2 = .assign) ∨ more = ['='] := by
        simp [symbols]
      rcases shapes _ symbol more rfl with ⟨rfl, same⟩ | rfl
      · exact ⟨congrArg Lexeme.token same, rfl⟩
      · cases brace with
        | nil => cases follows
        | cons =>
          obtain ⟨rfl, -⟩ := List.cons.inj follows
          cases braceBlank '=' mem_cons_self
  obtain ⟨second, piece, rest, more, rfl, -, noWords', starts, follows⟩ :=
    fits.right.tail.blank_append follows.symm braceBlank rfl
  have member : piece ∈ first ++ (Lexeme.token .assign, ['=']) :: (second ++ piece :: rest) := by simp
  obtain ⟨_, rfl, kindOf⟩ := fits.eq_sign quiet member (c := '\x7b') (by rw [starts]; simp) rfl
  cases kindOf
  obtain rfl : more = [] := (List.cons.inj starts).2.symm
  exact ⟨first, second, rest, rfl, noWords, noWords', follows.symm⟩

theorem bracket_within {list after before others : List Piece} (fits : Fits (list ++ after))
    (ends : ∀ word rest, wordsOf after = word :: rest → word.1.isSign = true ∧ word.1 ≠ .leftBracket)
    (split : list ++ after = before ++ (.token .leftBracket, ['[']) :: others) {run : Text}
    (place : written list = front ++ start) (isBefore : written before = front ++ run)
    (joined : ∀ c ∈ run, isWordChar c = true ∨ isBlank c = true) :
    ∃ inner, list = before ++ (.token .leftBracket, ['[']) :: inner ∧ others = inner ++ after := by
  rcases append_eq_append_iff.mp split with ⟨more, rfl, back⟩ | ⟨more, whole, back⟩
  · have behind : start ++ written more = run := by
      rw [written_append, place, append_assoc] at isBefore
      exact append_cancel_left isBefore
    cases words : wordsOf more with
    | nil =>
      have first := ends (.leftBracket, ['[']) (wordsOf others) (by rw [back, wordsOf_append, words]; rfl)
      exact absurd rfl first.2
    | cons word rest =>
      have first := ends word (rest ++ wordsOf ((.token .leftBracket, ['[']) :: others))
        (by rw [back, wordsOf_append, words]; rfl)
      have isPiece : (Lexeme.token word.1, word.2) ∈ more := mem_wordsOf (by rw [words]; exact mem_cons_self)
      have token : IsToken word.1 word.2 := fits.isToken (by rw [back]; simp [isPiece])
      have within : word.1.signChar ∈ run := by
        rw [← behind]
        refine mem_append_right _ (mem_flatMap.mpr ⟨_, isPiece, ?_⟩)
        rw [token.sign first.1]
        exact mem_cons_self
      obtain ⟨unword, unblank⟩ := not_isWordChar_signChar first.1
      rcases joined _ within with word | blank
      · rw [word] at unword
        cases unword
      · rw [blank] at unblank
        cases unblank
  · cases more with
    | nil =>
      obtain rfl : (Lexeme.token .leftBracket, ['[']) :: others = after := back
      have first := ends (.leftBracket, ['[']) (wordsOf others) rfl
      exact absurd rfl first.2
    | cons _ inner =>
      obtain ⟨rfl, rfl⟩ := List.cons.inj back
      exact ⟨inner, whole, rfl⟩

section

variable {list after : List Piece} (fits : Fits (list ++ after)) (quiet : Quiet (list ++ after))
include fits quiet

theorem exists_headPlace
    (closes : Closes (wordsOf list)) (unassigned : ∀ word ∈ wordsOf list, word.1 ≠ .assign)
    (ends : ∀ word rest, wordsOf after = word :: rest → word.1.isSign = true ∧ word.1 ≠ .leftBracket) {stop : Text}
    {head : ArrayHead} (split : written list = front ++ start)
    (found : readArrayHead (start ++ written after) = some (head, stop)) :
    ∃ outer left right tail sign brace before inside behind mid rest,
      HeadForm (start ++ written after) head stop outer left right tail sign brace ∧
      HeadPlace list after head front outer left right before inside behind mid rest ∧
      tail = written (behind ++ after) ∧ stop = written rest := by
  obtain ⟨outer, left, right, tail, sign, brace, form⟩ := readArrayHead_eq_some found
  obtain ⟨innerBlank, stopBlank⟩ := forall_mem_append.mp form.blank
  obtain ⟨outerBlank, innerBlank⟩ := forall_mem_append.mp innerBlank
  have opens : written (list ++ after) =
      (front ++ (head.name ++ outer)) ++ '[' :: (left ++ head.digits ++ right ++ ']' :: tail) := by
    rw [written_append, split, append_assoc, form.whole]
    simp only [append_assoc]
  obtain ⟨before, _, parted, isBefore, isOthers⟩ := fits.exists_sign quiet rfl rfl opens
  obtain ⟨inner, rfl, rfl⟩ := bracket_within fits ends parted split isBefore
    (forall_mem_append.mpr ⟨fun c member => .inl (form.word c member), fun c member => .inr (outerBlank c member)⟩)
  -- the size ends at the first closing bracket
  rw [append_assoc, cons_append] at fits quiet
  have fitsInner : Fits (inner ++ after) := fits.right.tail
  have quietInner : Quiet (inner ++ after) := quiet.right.tail
  rw [wordsOf_append, wordsOf_token] at closes
  obtain ⟨_, isClosing⟩ := closes.right.1 rfl
  obtain ⟨inside, behind, rfl, first⟩ := exists_closing fitsInner.left quietInner.left isClosing
  have shape : written inside ++ ']' :: written (behind ++ after) =
      left ++ head.digits ++ right ++ ']' :: tail := by
    rw [← isOthers]
    simp
  obtain ⟨isInside, isTail⟩ := split_until first form.unclosed shape
  -- from there on brackets are skipped within the words, and no equals sign is among them
  rw [append_assoc, cons_append] at fitsInner quietInner
  rw [wordsOf_append, wordsOf_token] at closes
  obtain ⟨passed, behind', rfl, skipped⟩ := skipBrackets_pieces fitsInner.right.tail quietInner.right.tail
    closes.right.2.right.2 fun word rest isFirst => (ends word rest isFirst).2
  rw [isTail, form.stop] at skipped
  rw [append_assoc] at fitsInner quietInner
  obtain ⟨gaps, gaps', rest, parted', noWords, noWords', isRest⟩ := exists_opening fitsInner.right.tail.right
    quietInner.right.tail.right skipped.symm stopBlank
  obtain ⟨more, rfl, rfl⟩ : ∃ more, gaps = behind' ++ more ∧
      after = more ++ (.token .assign, ['=']) :: (gaps' ++ (.token .leftBrace, ['\x7b']) :: rest) := by
    rcases append_eq_append_iff.mp parted' with ⟨more, rfl, back⟩ | ⟨more, rfl, back⟩
    · exact ⟨more, rfl, back⟩
    · cases more with
      | nil => exact ⟨[], by simp, back.symm⟩
      | cons =>
        obtain ⟨rfl, -⟩ := List.cons.inj back
        have assigned := unassigned (.assign, ['=']) (by simp)
        exact absurd rfl assigned
  rw [wordsOf_append, append_eq_nil_iff] at noWords
  refine ⟨outer, left, right, tail, sign, brace, before, inside, passed ++ behind',
    more ++ (.token .assign, ['=']) :: (gaps' ++ [(.token .leftBrace, ['\x7b'])]), rest, form, ?_, isTail.symm,
    isRest.symm⟩
  exact { list := rfl, after := by simp, before := isBefore, inside := isInside
          opening := by simp [noWords.2, noWords']
          last := getLast?_eq_some_iff.mpr ⟨more ++ (.token .assign, ['=']) :: gaps', by simp⟩ }

theorem readArrayHead_eq_none (nest : Nest true (wordsOf list)) (ends : Ends (wordsOf after))
    (split : written list = front ++ start) : readArrayHead (start ++ written after) = none := by
  cases found : readArrayHead (start ++ written after) with
  | none => rfl
  | some read =>
    obtain ⟨_, _⟩ := read
    obtain ⟨_, _, _, _, _, _, _, _, _, _, rest, -, place, -⟩ := exists_headPlace fits quiet
      (closes_of_nest nest) (not_assign_of_nest nest)
      (fun word rest isFirst => ⟨(ends word rest isFirst).1, (ends word rest isFirst).2.1⟩) split found
    have words : wordsOf after = (.assign, ['=']) :: (.leftBrace, ['\x7b']) :: wordsOf rest := by
      rw [place.after, wordsOf_append, place.opening]
      rfl
    exact absurd rfl ((ends _ _ words).2.2 rfl (.leftBrace, ['\x7b']) rfl)

end

end Repair

end SysYTools
