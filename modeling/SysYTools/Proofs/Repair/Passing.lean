import SysYTools.Proofs.Repair.Heads

/-!
The repair of arrays, seen on the words of a program. Where comments do not come between the words of a
head, the repair passes over all words but those of definitions and leaves them as they are.
-/

namespace SysYTools.Repair

open List Lexis Text

variable {after before gaps list rest : List Piece} {front start value : Text} {kind : TokenKind}
  {words : List Word}

/-! ## Comments and parentheses that do no harm -/

def Bare (list : List Piece) : Prop := ∀ piece ∈ list.takeWhile (·.1 == .gap), ∀ c ∈ piece.2, isBlank c = true

/-- Neighbours among words between which a comment can hide a head or its list. -/
def isTied : TokenKind → TokenKind → Bool
  | _, .leftBracket | .leftBracket, .integerLiteral | .integerLiteral, .rightBracket | .rightBracket, .assign
  | .assign, .leftBrace | .leftBrace, .rightBrace => true
  | _, _ => false

/-- No comment stands between words that are tied. -/
def Unbroken : List Piece → Prop
  | [] => True
  | (.token kind, _) :: rest => (∀ next ∈ (wordsOf rest).head?, isTied kind next.1 = true → Bare rest) ∧ Unbroken rest
  | _ :: rest => Unbroken rest

theorem Unbroken.right {left right : List Piece} (unbroken : Unbroken (left ++ right)) : Unbroken right := by
  induction left with
  | nil => exact unbroken
  | cons piece _ ih =>
    obtain ⟨lexeme, _⟩ := piece
    cases lexeme with
    | token => exact ih unbroken.2
    | _ => exact ih unbroken

theorem Bare.blank {gaps rest : List Piece} {kind : TokenKind} {value : Text}
    (bare : Bare (gaps ++ (.token kind, value) :: rest)) (sound : ∀ piece ∈ gaps, Sound piece)
    (none : wordsOf gaps = []) : ∀ c ∈ written gaps, isBlank c = true := by
  have all : ∀ piece ∈ gaps, (piece.1 == .gap) = true := by
    intro piece member
    simpa using gap_of_wordsOf sound none piece member
  rw [Bare, takeWhile_append_of_pos all, takeWhile_cons_of_neg (by simp), append_nil] at bare
  intro c member
  obtain ⟨piece, isPiece, within⟩ := mem_flatMap.mp member
  exact bare piece isPiece c within

/-- No literal is alone in parentheses behind another bracket, where it could be a size. -/
def Unwrapped (words : List Word) : Prop :=
  ∀ kind, kind = .leftBracket ∨ kind = .leftParen →
    ¬ [kind, .leftParen, .integerLiteral, .rightParen] <:+: words.map (·.1)

theorem Unwrapped.right {left right : List Word} (unwrapped : Unwrapped (left ++ right)) : Unwrapped right := by
  intro kind opens within
  refine unwrapped kind opens (within.trans ?_)
  rw [map_append]
  exact (suffix_append _ _).isInfix

/-! ## Passing over text without a head -/

theorem Grows.skips {before : Option Char} {run text text' : Text} {changes : List SizeChange}
    (none : ∀ front start, run = front ++ start → start ≠ [] →
      isWordBoundary (front.getLast?.or before) start.head? = true → readArrayHead (start ++ text) = none)
    (grows : Grows (run.getLast?.or before) text text' changes) :
    Grows before (run ++ text) (run ++ text') changes := by
  induction run generalizing before with
  | nil => exact grows
  | cons c run ih =>
    refine .skip (fun boundary => none [] (c :: run) rfl (cons_ne_nil c run) boundary) (ih ?_ ?_)
    · rintro front start rfl nonempty boundary
      refine none (c :: front) start rfl nonempty ?_
      rw [getLast?_cons]
      cases last : front.getLast? with
      | none | some => simpa [last] using boundary
    · rw [getLast?_cons] at grows
      cases last : run.getLast? with
      | none | some => simpa [last] using grows

theorem blank_of_append {back name outer : Text} (same : front ++ back = name ++ outer) (nonempty : front ≠ [])
    (parted : Parted front.getLast? back) (word : ∀ c ∈ name, isWordChar c = true)
    (blank : ∀ c ∈ outer, isBlank c = true) : ∀ c ∈ back, isBlank c = true := by
  rcases append_eq_append_iff.mp same with ⟨more, rfl, rfl⟩ | ⟨more, rfl, rfl⟩
  · cases more with
    | nil => exact blank
    | cons d =>
      have last : front.getLast?.any isWordChar = true := by
        rw [getLast?_eq_some_getLast nonempty]
        simpa using word _ (mem_append_left _ (getLast_mem nonempty))
      have unword := parted last
      rw [cons_append, head?_cons, Option.any_some, word d (by simp)] at unword
      cases unword
  · exact fun c member => blank c (mem_append_right _ member)

theorem exists_bracket (fits : Fits list) (quiet : Quiet list) {after : Text} {head : ArrayHead}
    (split : written list = front ++ start) (found : readArrayHead start = some (head, after)) :
    ∃ before others outer, list = before ++ (.token .leftBracket, ['[']) :: others ∧
      written before = front ++ (head.name ++ outer) ∧ (∀ c ∈ head.name, isWordChar c = true) ∧
      (∃ c ∈ head.name, isNameStart c = true) ∧ ∀ c ∈ outer, isBlank c = true := by
  obtain ⟨outer, left, right, tail, _, _, form⟩ := readArrayHead_eq_some found
  obtain ⟨c, first, start⟩ := form.start
  have opens : written list =
      (front ++ (head.name ++ outer)) ++ '[' :: (left ++ head.digits ++ right ++ ']' :: tail) := by
    rw [split, form.whole]
    simp only [append_assoc]
  obtain ⟨before, others, parted, isBefore, -⟩ := fits.exists_sign quiet rfl rfl opens
  exact ⟨before, others, outer, parted, isBefore, form.word, ⟨c, mem_of_mem_head? first, start⟩,
    fun c member => form.blank c (by simp [member])⟩

theorem readArrayHead_eq_none_of_next (fits : Fits (list ++ after)) (quiet : Quiet (list ++ after))
    (parted : Parted (written list).getLast? (written after))
    (unbracketed : ∀ word ∈ wordsOf list, word.1 ≠ .leftBracket)
    (next : ∀ word ∈ (wordsOf after).head?, word.1 ≠ .leftBracket) (split : written list = front ++ start)
    (nonempty : start ≠ []) : readArrayHead (start ++ written after) = none := by
  cases found : readArrayHead (start ++ written after) with
  | none => rfl
  | some read =>
    obtain ⟨_, _⟩ := read
    have place : written (list ++ after) = front ++ (start ++ written after) := by
      rw [written_append, split, append_assoc]
    obtain ⟨_, others, _, whole, isBefore, word, -, blank⟩ := exists_bracket fits quiet place found
    exfalso
    rcases append_eq_append_iff.mp whole with ⟨more, rfl, rfl⟩ | ⟨more, rfl, back⟩
    · rw [written_append, split, append_assoc] at isBefore
      have same := append_cancel_left isBefore
      have last : (written list).getLast? = start.getLast? := by
        rw [split, getLast?_append, getLast?_eq_some_getLast nonempty]
        rfl
      have parted' : Parted start.getLast? (written more) := by
        rw [last, written_append] at parted
        cases shape : written more with
        | nil => exact .of_head (by simp)
        | cons => simpa [Parted, shape] using parted
      have allBlank := blank_of_append same nonempty parted' word blank
      have words := fits.right.left.wordsOf_blank allBlank
      exact next (.leftBracket, ['[']) (by rw [wordsOf_append, words]; rfl) rfl
    · cases more with
      | nil =>
        obtain rfl : (Lexeme.token .leftBracket, ['[']) :: others = after := back
        exact next (.leftBracket, ['[']) rfl rfl
      | cons =>
        obtain ⟨rfl, -⟩ := List.cons.inj back
        exact unbracketed (.leftBracket, ['[']) (by simp) rfl

theorem readArrayHead_eq_none_of_sign (isSign : kind.isSign = true)
    (fits : Fits (gaps ++ (.token kind, value) :: after)) (quiet : Quiet (gaps ++ (.token kind, value) :: after))
    (noWords : wordsOf gaps = []) (bare : kind = .leftBracket → ∀ c ∈ written gaps, isBlank c = true)
    (split : written gaps ++ value = front ++ start) (nonempty : start ≠ []) :
    readArrayHead (start ++ written after) = none := by
  cases found : readArrayHead (start ++ written after) with
  | none => rfl
  | some read =>
    obtain ⟨head, _⟩ := read
    have token := fits.isToken (mem_append_right gaps mem_cons_self)
    have place : written (gaps ++ (.token kind, value) :: after) = front ++ (start ++ written after) := by
      rw [written_append, written_cons, ← append_assoc, split, append_assoc]
    obtain ⟨before, _, outer, whole, isBefore, word, ⟨c, inName, named⟩, blank⟩ :=
      exists_bracket fits quiet place found
    exfalso
    -- a name and white space do not go on over the sign
    have beyond : ∀ more, before ≠ gaps ++ [(.token kind, value)] ++ more := by
      rintro more rfl
      have same : start ++ written more = head.name ++ outer := by
        have whole : front ++ (start ++ written more) = front ++ (head.name ++ outer) := by
          rw [← isBefore, ← append_assoc, ← split]
          simp
        exact append_cancel_left whole
      have within : kind.signChar ∈ head.name ++ outer := by
        rw [← same]
        refine mem_append_left _ ?_
        rw [token.sign isSign] at split
        exact mem_of_mem_getLast? (by
          have last := congrArg List.getLast? split
          rw [getLast?_append, getLast?_append, getLast?_eq_some_getLast nonempty] at last
          rw [getLast?_eq_some_getLast nonempty]
          exact last.symm)
      obtain ⟨unword, unblank⟩ := not_isWordChar_signChar isSign
      rcases mem_append.mp within with inName | inOuter
      · rw [word _ inName] at unword
        cases unword
      · rw [blank _ inOuter] at unblank
        cases unblank
    rw [append_cons] at whole
    rcases append_eq_append_iff.mp whole with ⟨more, isLonger, -⟩ | ⟨more, isShorter, back⟩
    · exact beyond more isLonger
    · cases more with
      | nil => exact beyond [] (by simpa using isShorter.symm)
      | cons first =>
        -- the bracket is the sign itself, and only white space stands before it
        obtain ⟨rfl, -⟩ := List.cons.inj back
        have words := congrArg wordsOf isShorter
        simp only [wordsOf_append, noWords, wordsOf_token, wordsOf_nil, nil_append] at words
        obtain ⟨empty, isBracket⟩ : wordsOf before = [] ∧ kind = .leftBracket := by
          cases front : wordsOf before with
          | nil =>
            rw [front] at words
            exact ⟨rfl, congrArg Prod.fst (List.cons.inj words).1⟩
          | cons =>
            rw [front] at words
            simp at words
        have within : c ∈ written before := by rw [isBefore]; simp [inName]
        obtain ⟨piece, isPiece, inPiece⟩ := mem_flatMap.mp within
        have inGaps : piece ∈ gaps := by
          have member : piece ∈ gaps ++ [(Lexeme.token kind, value)] := by rw [isShorter]; simp [isPiece]
          rcases mem_append.mp member with inGaps | isSame
          · exact inGaps
          · have none := filterMap_eq_nil_iff.mp empty piece isPiece
            rw [mem_singleton.mp isSame] at none
            cases none
        have isBlank := bare isBracket c (mem_flatMap.mpr ⟨piece, inGaps, inPiece⟩)
        rw [not_isBlank_of_isNameChar (by simp [Lexeme.isNameChar, named])] at isBlank
        cases isBlank

/-! ## Turning words -/

/-- Pieces behind others, from which the repair may go on. -/
structure Ready (before list : List Piece) : Prop where
  fits : Fits (before ++ list)
  quiet : Quiet list
  parted : Parted (written before).getLast? (written list)
  led : ∀ word ∈ (wordsOf list).head?, word.1 = .leftBracket → Bare list
  unbroken : Unbroken list
  unwrapped : Unwrapped (wordsOf list)

/-- The repair turns words into others, wherever they stand. -/
def Turns (words words' : List Word) : Prop :=
  ∀ before list, Ready before list → wordsOf list = words →
    ∃ list' changes, Grows (written before).getLast? (written list) (written list') changes ∧
      wordsOf list' = words' ∧ Fits (before ++ list')

theorem isTied_leftBracket (kind : TokenKind) : isTied kind .leftBracket = true := by
  cases kind <;> rfl

theorem Ready.next (ready : Ready before (gaps ++ (.token kind, value) :: rest))
    (parted : Parted value.getLast? (written rest)) :
    Ready (before ++ (gaps ++ [(.token kind, value)])) rest where
  fits := by simpa using ready.fits
  quiet := ready.quiet.right.tail
  parted := by
    have nonempty : value ≠ [] := by
      obtain ⟨c, more, split, -⟩ := ready.fits.right.right.read
      rw [show value = c :: more from split]
      exact cons_ne_nil c more
    have last : (written (before ++ (gaps ++ [(.token kind, value)]))).getLast? = value.getLast? := by
      simp [getLast?_append, getLast?_eq_some_getLast nonempty]
    rwa [last]
  led := by
    intro word first isBracket
    exact ready.unbroken.right.1 word first (by rw [isBracket]; exact isTied_leftBracket kind)
  unbroken := ready.unbroken.right.2
  unwrapped := by
    have unwrapped := ready.unwrapped
    rw [wordsOf_append, wordsOf_token, append_cons] at unwrapped
    exact unwrapped.right

theorem Ready.behind (ready : Ready before (list ++ rest)) (ends : Ends (wordsOf rest)) :
    Ready (before ++ list) rest where
  fits := by simpa using ready.fits
  quiet := ready.quiet.right
  parted := by
    refine .of_head fun c head => ?_
    have fits := ready.fits.right.right
    cases rest with
    | nil => cases head
    | cons piece rest =>
      obtain ⟨_, value⟩ := piece
      obtain ⟨d, more, split, -⟩ := fits.read
      obtain rfl : value = d :: more := split
      obtain rfl : d = c := by simpa using head
      rcases fits.sound _ mem_cons_self with rfl | ⟨kind, rfl⟩
      · cases fits.gap with
        | blank blank => exact not_isWordChar_of_isGapChar blank
        | line | block => rfl
      · have isSign := (ends (kind, d :: more) (wordsOf rest) rfl).1
        have single := (fits.isToken mem_cons_self).sign isSign
        rw [(List.cons.inj single).1]
        exact (not_isWordChar_signChar isSign).1
  led := by
    rintro word first isBracket
    cases words : wordsOf rest with
    | nil => simp [words] at first
    | cons first' =>
      obtain rfl : first' = word := by simpa [words] using first
      exact absurd isBracket (ends _ _ words).2.1
  unbroken := ready.unbroken.right
  unwrapped := by
    have unwrapped := ready.unwrapped
    rw [wordsOf_append] at unwrapped
    exact unwrapped.right

theorem Turns.keep {words words' : List Word} (turns : Turns words words') {before list rest : List Piece}
    (ready : Ready (before ++ list) rest) (isWords : wordsOf rest = words)
    (none : ∀ front start, written list = front ++ start → start ≠ [] →
      isWordBoundary (front.getLast?.or (written before).getLast?) start.head? = true →
      readArrayHead (start ++ written rest) = none) :
    ∃ list' changes, Grows (written before).getLast? (written (list ++ rest)) (written list') changes ∧
      wordsOf list' = wordsOf list ++ words' ∧ Fits (before ++ list') := by
  obtain ⟨rest', changes, grows, isWords', _⟩ := turns _ _ ready isWords
  refine ⟨list ++ rest', changes, ?_, ?_, by rwa [← append_assoc]⟩
  · rw [written_append, written_append]
    rw [written_append, getLast?_append] at grows
    exact Grows.skips none grows
  · rw [wordsOf_append, isWords']

theorem Turns.sign {kind : TokenKind} {value : Text} {words words' : List Word} (isSign : kind.isSign = true)
    (turns : Turns words words') : Turns ((kind, value) :: words) ((kind, value) :: words') := by
  intro before list ready isWords
  obtain ⟨gaps, rest, rfl, noWords, isRest⟩ := wordsOf_eq_cons isWords
  have fits := ready.fits.right
  have token := fits.isToken (mem_append_right gaps mem_cons_self)
  have parted : Parted value.getLast? (written rest) := by
    refine .of_last ?_
    rw [token.sign isSign]
    rintro c last
    cases last
    exact (not_isWordChar_signChar isSign).1
  have bare : kind = .leftBracket → ∀ c ∈ written gaps, isBlank c = true := by
    rintro rfl
    exact (ready.led (.leftBracket, value) (by simp [noWords]) rfl).blank fits.left.sound noWords
  have kept := turns.keep (ready.next parted) isRest fun front start split nonempty _ =>
    readArrayHead_eq_none_of_sign isSign fits ready.quiet noWords bare (by simpa using split) nonempty
  simpa [noWords] using kept

theorem Turns.keyword {words' : List Word} (isKeyword : kind.isKeyword = true)
    (next : ∀ word ∈ words.head?, word.1 ≠ .leftBracket) (turns : Turns words words') :
    Turns ((kind, value) :: words) ((kind, value) :: words') := by
  intro before list ready isWords
  obtain ⟨gaps, rest, rfl, noWords, isRest⟩ := wordsOf_eq_cons isWords
  have fits := ready.fits.right
  have token := fits.isToken (mem_append_right gaps mem_cons_self)
  have parted : Parted value.getLast? (written rest) :=
    .of_head (fits.right.parted_word (token.word_of_kind (.inr isKeyword)))
  have last : Parted (written (gaps ++ [(.token kind, value)])).getLast? (written rest) := by
    have nonempty := getLast?_eq_some_getLast token.ne_nil
    simpa [getLast?_append, nonempty] using parted
  have unbracketed : ∀ word ∈ wordsOf (gaps ++ [(.token kind, value)]), word.1 ≠ .leftBracket := by
    intro word member
    obtain rfl : word = (kind, value) := by simpa [noWords] using member
    rintro rfl
    cases isKeyword
  have kept := turns.keep (ready.next parted) isRest fun front start split nonempty _ =>
    readArrayHead_eq_none_of_next (by simpa using fits) (by simpa using ready.quiet) last unbracketed
      (by rwa [isRest]) split nonempty
  simpa [noWords] using kept

theorem Turns.pass {after after' : List Word} (nest : Nest true words) (ends : Ends after)
    (turns : Turns after after') : Turns (words ++ after) (words ++ after') := by
  intro before list ready isWords
  obtain ⟨_, _, rfl, rfl, rfl⟩ := wordsOf_eq_append isWords
  exact turns.keep (ready.behind ends) rfl fun front start split _ _ =>
    readArrayHead_eq_none ready.fits.right ready.quiet nest ends split

end SysYTools.Repair
