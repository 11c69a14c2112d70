import SysYTools.Proofs.Token.Pieces
import SysYTools.Text.Bracket

/-!
Signs in raw text. A search that knows nothing of tokens finds the brackets and commas of a text by their
characters. It finds those of the program, as long as comments hold none: then a bracket or a comma in the
text is a piece of its own.
-/

namespace SysYTools

open List

variable {after rest text value : Text} {before : Option Char} {c : Char} {kind : TokenKind}
  {words : List (TokenKind × Text)}

/-- Brackets, commas, semicolons and equals signs, which join no word beside them. -/
def TokenKind.isSign : TokenKind → Bool
  | .leftParen | .rightParen | .leftBracket | .rightBracket | .leftBrace | .rightBrace | .comma | .semicolon
  | .assign => true
  | _ => false

def TokenKind.signChar : TokenKind → Char
  | .leftParen => '('
  | .rightParen => ')'
  | .leftBracket => '['
  | .rightBracket => ']'
  | .leftBrace => '\x7b'
  | .rightBrace => '\x7d'
  | .comma => ','
  | .semicolon => ';'
  | .assign => '='
  | _ => ' '

def TokenKind.isKeyword : TokenKind → Bool
  | .intKeyword | .floatKeyword | .voidKeyword | .constKeyword | .ifKeyword | .elseKeyword | .whileKeyword
  | .breakKeyword | .continueKeyword | .returnKeyword => true
  | _ => false

def isBracketOrComma (c : Char) : Bool := isOpeningBracket c || isClosingBracket c || c == ','

namespace Lexis

open Lexeme

/-! ## Classes of characters -/

theorem isBracketOrComma_cases (found : isBracketOrComma c = true) :
    c = '(' ∨ c = ')' ∨ c = '[' ∨ c = ']' ∨ c = '\x7b' ∨ c = '\x7d' ∨ c = ',' := by
  simp only [isBracketOrComma, isOpeningBracket, isClosingBracket, Bool.or_eq_true, beq_iff_eq] at found
  rcases found with (opening | (rfl | rfl) | rfl) | rfl
  · unfold closingBracket? at opening
    split at opening <;> simp_all
  all_goals simp

theorem isNameChar_iff : isNameChar c = true ↔
    (48 ≤ c.toNat ∧ c.toNat ≤ 57) ∨ (65 ≤ c.toNat ∧ c.toNat ≤ 90) ∨ (97 ≤ c.toNat ∧ c.toNat ≤ 122) ∨ c.toNat = 95 := by
  rw [isNameChar, Bool.or_eq_true, isNameStart_iff, isDigit_iff]
  tauto

theorem isWordChar_of_isNameChar (named : isNameChar c = true) : isWordChar c = true := by
  have low : c.toNat < 128 := by
    rw [isNameChar_iff] at named
    omega
  simp only [isNameChar, isNameStart, Bool.or_eq_true] at named
  simp only [isWordChar, low, if_true, Char.isAlphanum, Bool.or_eq_true]
  tauto

theorem not_isBlank_of_isNameChar (named : isNameChar c = true) : isBlank c = false := by
  rw [isNameChar_iff] at named
  simp only [isBlank, Bool.or_eq_false_iff, Bool.and_eq_false_iff, decide_eq_false_iff_not, beq_eq_false_iff_ne]
  omega

theorem not_isWordChar_of_isGapChar (blank : isGapChar c = true) : isWordChar c = false := by
  simp only [isGapChar, Bool.or_eq_true, beq_iff_eq] at blank
  rcases blank with ((rfl | rfl) | rfl) | rfl <;> rfl

theorem not_isWordChar_signChar (isSign : kind.isSign = true) :
    isWordChar kind.signChar = false ∧ isBlank kind.signChar = false := by
  cases kind <;> first | cases isSign; done | exact ⟨rfl, rfl⟩

/-! ## Characters of tokens -/

theorem IsExponent.chars (form : IsExponent text) : ∀ c ∈ text, isNameChar c = true ∨ c = '+' ∨ c = '-' := by
  have marks : ∀ {mark : Char}, isExponentMark mark = true → isNameChar mark = true := by
    intro mark marked
    simp only [isExponentMark, Bool.or_eq_true, beq_iff_eq] at marked
    rcases marked with rfl | rfl <;> rfl
  intro c member
  cases form with
  | plain marked _ all =>
    rcases mem_cons.mp member with rfl | member
    · exact .inl (marks marked)
    · exact .inl (isNameChar_of_isDigit (all c member))
  | signed marked signed _ all =>
    rcases mem_cons.mp member with rfl | member
    · exact .inl (marks marked)
    rcases mem_cons.mp member with rfl | member
    · exact .inr signed
    · exact .inl (isNameChar_of_isDigit (all c member))

theorem IsInteger.chars (form : IsInteger text) : ∀ c ∈ text, isNameChar c = true := by
  intro c member
  cases form with
  | decimal digit _ all =>
    rcases mem_cons.mp member with rfl | member
    · exact isNameChar_of_isDigit digit
    · exact isNameChar_of_isDigit (all c member)
  | octal all =>
    rcases mem_cons.mp member with rfl | member
    · rfl
    · exact isNameChar_of_isDigit (isDigit_of_isOctalDigit (all c member))
  | hexadecimal marked _ all =>
    rcases mem_cons.mp member with rfl | member
    · rfl
    rcases mem_cons.mp member with rfl | member
    · rcases marked with rfl | rfl <;> rfl
    · exact isNameChar_of_isHexDigit (all c member)

theorem IsWord.chars (form : IsWord text) : ∀ c ∈ text, isNameChar c = true := by
  cases form with
  | mk named all => exact forall_mem_cons.mpr ⟨by simp [isNameChar, named], all⟩

/-- Words and numbers are written with few characters, and all others are in the table of symbols. -/
theorem IsToken.chars {kind : TokenKind} {text : Text} (token : IsToken kind text) :
    (text, kind) ∈ symbols ∨ ∀ c ∈ text, isNameChar c = true ∨ c = '.' ∨ c = '+' ∨ c = '-' := by
  cases token with
  | word form => exact .inr fun c member => .inl (form.chars c member)
  | integer form => exact .inr fun c member => .inl (form.chars c member)
  | symbol member => exact .inl member
  | float form =>
    right
    intro c member
    have powers : ∀ {power : Text}, IsExponent power → c ∈ power →
        isNameChar c = true ∨ c = '.' ∨ c = '+' ∨ c = '-' := by
      intro power isExponent member
      rcases isExponent.chars c member with named | sign
      · exact .inl named
      · exact .inr (.inr sign)
    cases form with
    | point wholeDigits partDigits _ powerForm =>
      simp only [mem_append, mem_cons] at member
      rcases member with (member | point | member) | member
      · exact .inl (isNameChar_of_isDigit (wholeDigits c member))
      · exact .inr (.inl point)
      · exact .inl (isNameChar_of_isDigit (partDigits c member))
      · rcases powerForm with rfl | isExponent
        · cases member
        · exact powers isExponent member
    | power wholeDigits _ isExponent =>
      rcases mem_append.mp member with member | member
      · exact .inl (isNameChar_of_isDigit (wholeDigits c member))
      · exact powers isExponent member

section

variable (token : IsToken kind text)
include token

theorem IsToken.not_blank : ∀ c ∈ text, isBlank c = false := by
  rcases token.chars with symbol | chars
  · have all : ∀ entry ∈ symbols, ∀ c ∈ entry.1, isBlank c = false := by simp [symbols, isBlank]
    exact all _ symbol
  · intro c member
    rcases chars c member with named | rfl | rfl | rfl
    · exact not_isBlank_of_isNameChar named
    all_goals rfl

theorem IsToken.eq_singleton (member : c ∈ text) (found : isBracketOrComma c = true) :
    text = [c] ∧ TokenKind.ofChar? c = some kind := by
  rcases token.chars with symbol | chars
  · have all : ∀ entry ∈ symbols, ∀ c ∈ entry.1, isBracketOrComma c = true →
        entry.1 = [c] ∧ TokenKind.ofChar? c = some entry.2 := by
      simp [symbols, isBracketOrComma, isOpeningBracket, isClosingBracket, closingBracket?, TokenKind.ofChar?]
    exact all _ symbol c member found
  · rcases isBracketOrComma_cases found with rfl | rfl | rfl | rfl | rfl | rfl | rfl <;>
      exact absurd (chars _ member) (by decide)

theorem IsToken.sign (isSign : kind.isSign = true) : text = [kind.signChar] := by
  cases token with
  | word =>
    have none : ∀ kind ∈ TokenKind.identifier :: TokenKind.keywords.map (·.2), kind.isSign = false := by decide
    rw [none _ (ofWord_mem _)] at isSign
    cases isSign
  | integer | float => cases isSign
  | symbol member =>
    have all : ∀ entry ∈ symbols, entry.2.isSign = true → entry.1 = [entry.2.signChar] := by
      simp [symbols, TokenKind.isSign, TokenKind.signChar]
    exact all _ member isSign

theorem IsToken.word_of_kind (isWord : kind = .identifier ∨ kind.isKeyword = true) : IsWord text := by
  cases token with
  | word form => exact form
  | integer | float => rcases isWord with found | found <;> cases found
  | symbol member =>
    have none : ∀ entry ∈ symbols, entry.2 ≠ .identifier ∧ entry.2.isKeyword = false := by decide
    obtain ⟨unnamed, unkeyed⟩ := none _ member
    rcases isWord with found | found
    · exact absurd found unnamed
    · rw [unkeyed] at found
      cases found

end

/-! ## Pieces that fit -/

/-- What a text is made of, and how it is written. -/
abbrev Piece := Lexeme × Text

/-- The pieces of a text in which nothing is wrong. -/
structure Fits (list : List Piece) : Prop where
  pieces : Lexis.pieces (written list) = list
  sound : ∀ piece ∈ list, Sound piece

namespace Fits

theorem right {left right : List Piece} (fits : Fits (left ++ right)) : Fits right where
  pieces := pieces_written_of_append fits.pieces
  sound := fun piece member => fits.sound piece (mem_append_right _ member)

theorem left {left right : List Piece} (fits : Fits (left ++ right)) : Fits left where
  pieces := pieces_written_of_append_left fits.pieces fun piece member => fits.sound piece (mem_append_left _ member)
  sound := fun piece member => fits.sound piece (mem_append_left _ member)

theorem tail {piece : Piece} {rest : List Piece} (fits : Fits (piece :: rest)) : Fits rest := @right [piece] rest fits

theorem read {piece : Piece} {rest : List Piece} (fits : Fits (piece :: rest)) :
    ∃ c more, piece.2 = c :: more ∧ Lexeme.read c (more ++ written rest) = (piece.1, more.length) := by
  have whole := fits.pieces
  have nonempty : written (piece :: rest) ≠ [] := by
    intro empty
    rw [empty, pieces_nil] at whole
    cases whole
  obtain ⟨c, tail, split⟩ := exists_cons_of_ne_nil nonempty
  obtain ⟨⟨_, length⟩, found⟩ : ∃ lexed, Lexeme.read c tail = lexed := ⟨_, rfl⟩
  rw [split, pieces_cons found] at whole
  obtain ⟨rfl, others⟩ := List.cons.inj whole
  have after : written rest = tail.drop length := by rw [← others, written_pieces]
  refine ⟨c, tail.take length, rfl, ?_⟩
  rw [after, take_append_drop, length_take_of_le (read_length_le found), found]

theorem gap {value : Text} {rest : List Piece} (fits : Fits ((.gap, value) :: rest)) : IsGap value (written rest) := by
  obtain ⟨c, more, split, found⟩ := fits.read
  have form := read_gap found
  rw [take_left, drop_left] at form
  rwa [show value = c :: more from split]

theorem token {kind : TokenKind} {value : Text} {rest : List Piece} (fits : Fits ((.token kind, value) :: rest)) :
    Longest kind value (value ++ written rest) ∧ ¬ StartsComment (value ++ written rest) := by
  obtain ⟨c, more, split, found⟩ := fits.read
  have form := read_token found
  rw [take_left] at form
  rwa [show value = c :: more from split]

theorem isToken {list : List Piece} (fits : Fits list) {kind : TokenKind} {value : Text}
    (member : (Lexeme.token kind, value) ∈ list) : IsToken kind value := by
  rw [← fits.pieces] at member
  exact isToken_of_mem_pieces member

theorem isNameChar_head {list : List Piece} (fits : Fits list) (head : c ∈ (written list).head?)
    (word : isWordChar c = true) : isNameChar c = true := by
  cases list with
  | nil => cases head
  | cons piece =>
    obtain ⟨d, more, split, -⟩ := fits.read
    obtain rfl : d = c := by simpa [written_cons, split] using head
    rcases fits.sound piece mem_cons_self with isGap | ⟨kind, isToken⟩
    · obtain ⟨_, value⟩ := piece
      subst isGap
      obtain rfl : value = d :: more := split
      cases fits.gap with
      | blank blank => simp [not_isWordChar_of_isGapChar blank] at word
      | line | block => cases word
    · have token : IsToken kind piece.2 := fits.isToken (by simp [← isToken])
      rw [split] at token
      rcases token.chars with symbol | chars
      · have none : ∀ entry ∈ symbols, ∀ c ∈ entry.1, isWordChar c = false := by
          simp [symbols, isWordChar, Char.isAlphanum, Char.isAlpha, Char.isUpper, Char.isLower, Char.isDigit]
        rw [none _ symbol d mem_cons_self] at word
        cases word
      · rcases chars d mem_cons_self with named | rfl | rfl | rfl
        · exact named
        all_goals cases word

end Fits

/-! ## Word boundaries -/

/-- A text does not go on with a word before it. -/
def Parted (before : Option Char) (after : Text) : Prop :=
  before.any isWordChar = true → after.head?.any isWordChar = false

theorem Parted.of_head (head : ∀ c ∈ after.head?, isWordChar c = false) : Parted before after := by
  intro _
  cases after with
  | nil => rfl
  | cons c => simpa using head c

theorem Parted.of_last (last : ∀ c ∈ before, isWordChar c = false) : Parted before after := by
  intro word
  cases before with
  | none => cases word
  | some c => simp [last c rfl] at word

theorem IsGap.parted (gap : IsGap value rest) : Parted value.getLast? rest := by
  cases gap with
  | blank blank => exact .of_last (by simpa using not_isWordChar_of_isGapChar blank)
  | line _ ends =>
    refine .of_head fun c head => ?_
    rcases ends with rfl | feed
    · cases head
    · rw [feed] at head
      cases head
      rfl
  | block =>
    refine .of_last fun c last => ?_
    rw [getLast?_append] at last
    cases last
    rfl

theorem Fits.parted_word {rest : List Piece} (fits : Fits ((.token kind, value) :: rest)) (form : IsWord value) :
    ∀ c ∈ (written rest).head?, isWordChar c = false := by
  intro c head
  by_contra word
  have named := fits.tail.isNameChar_head head (by simpa using word)
  obtain ⟨others, split⟩ : ∃ others, written rest = c :: others := by
    cases shape : written rest with
    | nil => simp [shape] at head
    | cons d others =>
      obtain rfl : d = c := by simpa [shape] using head
      exact ⟨others, rfl⟩
  have longer : IsWord (value ++ [c]) := by
    cases form with
    | @mk first more start all =>
      refine .mk start fun d member => ?_
      rcases mem_append.mp member with member | member
      · exact all d member
      · rwa [mem_singleton.mp member]
  have most := fits.token.1.most (.word longer) (by rw [split]; exact ⟨others, by simp⟩)
  simp at most

/-! ## Brackets and commas -/

/-- Brackets and commas stand in no comment. -/
def Quiet (list : List Piece) : Prop := ∀ piece ∈ list, piece.1 = .gap → ∀ c ∈ piece.2, isBracketOrComma c = false

theorem Quiet.right {left right : List Piece} (quiet : Quiet (left ++ right)) : Quiet right :=
  fun piece member => quiet piece (mem_append_right _ member)

theorem Quiet.tail {piece : Piece} {rest : List Piece} (quiet : Quiet (piece :: rest)) : Quiet rest :=
  fun other member => quiet other (mem_cons_of_mem _ member)

theorem Quiet.left {left right : List Piece} (quiet : Quiet (left ++ right)) : Quiet left :=
  fun piece member => quiet piece (mem_append_left _ member)

theorem Fits.eq_sign {list : List Piece} (fits : Fits list) (quiet : Quiet list) {piece : Piece}
    (member : piece ∈ list) (within : c ∈ piece.2) (found : isBracketOrComma c = true) :
    ∃ kind, piece = (.token kind, [c]) ∧ TokenKind.ofChar? c = some kind := by
  obtain ⟨_, _⟩ := piece
  rcases fits.sound _ member with rfl | ⟨kind, rfl⟩
  · rw [quiet _ member rfl c within] at found
    cases found
  · obtain ⟨rfl, kindOf⟩ := (fits.isToken member).eq_singleton within found
    exact ⟨kind, rfl, kindOf⟩

theorem Fits.exists_sign {list : List Piece} (fits : Fits list) (quiet : Quiet list) {front : Text}
    (found : isBracketOrComma c = true) (kindOf : TokenKind.ofChar? c = some kind)
    (split : written list = front ++ c :: rest) :
    ∃ left right, list = left ++ (.token kind, [c]) :: right ∧ written left = front ∧ written right = rest := by
  induction list generalizing front with
  | nil => simp at split
  | cons piece list ih =>
    rw [written_cons] at split
    rcases append_eq_append_iff.mp split with ⟨more, rfl, after⟩ | ⟨more, whole, after⟩
    · obtain ⟨left, right, rfl, rfl, rfl⟩ := ih fits.tail quiet.tail after
      exact ⟨piece :: left, right, rfl, rfl, rfl⟩
    · cases more with
      | nil =>
        obtain ⟨left, right, rfl, empty, rfl⟩ := ih fits.tail quiet.tail
          (show written list = [] ++ c :: rest from after.symm)
        exact ⟨piece :: left, right, rfl, by rw [written_cons, empty, whole, append_nil, append_nil], rfl⟩
      | cons d more =>
        obtain ⟨rfl, rfl⟩ := List.cons.inj after
        obtain ⟨kind', rfl, kindOf'⟩ := fits.eq_sign quiet mem_cons_self (show c ∈ piece.2 by rw [whole]; simp) found
        obtain rfl : kind' = kind := Option.some.inj (kindOf'.symm.trans kindOf)
        have short := congrArg List.length (show [c] = front ++ c :: more from whole)
        simp only [length_append, length_cons, length_nil] at short
        obtain rfl : front = [] := length_eq_zero_iff.mp (by omega)
        obtain rfl : more = [] := length_eq_zero_iff.mp (by omega)
        exact ⟨[], list, rfl, rfl, rfl⟩

/-! ## Words and gaps -/

@[simp] theorem wordsOf_token (kind : TokenKind) (value : Text) (list : List Piece) :
    wordsOf ((.token kind, value) :: list) = (kind, value) :: wordsOf list := rfl

@[simp] theorem wordsOf_nil : wordsOf [] = [] := rfl

theorem wordsOf_eq_cons {list : List Piece} (split : wordsOf list = (kind, value) :: words) :
    ∃ gaps rest, list = gaps ++ (.token kind, value) :: rest ∧ wordsOf gaps = [] ∧ wordsOf rest = words := by
  obtain ⟨gaps, ⟨lexeme, _⟩, rest, rfl, none, found, others⟩ := filterMap_eq_cons_iff.mp split
  refine ⟨gaps, rest, ?_, filterMap_eq_nil_iff.mpr none, others⟩
  cases lexeme with
  | token =>
    simp only [Option.some.injEq, Prod.mk.injEq] at found
    rw [found.1, found.2]
  | _ => cases found

theorem wordsOf_eq_append {list : List Piece} {front : List (TokenKind × Text)}
    (split : wordsOf list = front ++ words) :
    ∃ left right, list = left ++ right ∧ wordsOf left = front ∧ wordsOf right = words :=
  filterMap_eq_append_iff.mp split

theorem gap_of_wordsOf {list : List Piece} (sound : ∀ piece ∈ list, Sound piece) (none : wordsOf list = []) :
    ∀ piece ∈ list, piece.1 = .gap := by
  intro piece member
  rcases sound piece member with isGap | ⟨_, isToken⟩
  · exact isGap
  · have found := filterMap_eq_nil_iff.mp none piece member
    simp [isToken] at found

theorem mem_wordsOf {list : List Piece} (member : (kind, value) ∈ wordsOf list) :
    (Lexeme.token kind, value) ∈ list := by
  obtain ⟨_, _, split⟩ := append_of_mem member
  obtain ⟨_, rest, rfl, -, after⟩ := wordsOf_eq_append split
  obtain ⟨_, _, rfl, -⟩ := wordsOf_eq_cons after
  simp

/-! ## White space -/

theorem stripLeft_append {run text : Text} (blank : ∀ c ∈ run, isBlank c = true)
    (head : ∀ c ∈ text.head?, isBlank c = false) : Text.stripLeft (run ++ text) = text := by
  rw [Text.stripLeft, dropWhile_append_of_pos blank]
  cases text with
  | nil => rfl
  | cons c => rw [dropWhile_cons_of_neg (by simp [head c rfl])]

theorem stripLeft_eq (found : Text.stripLeft text = c :: rest) :
    ∃ run, text = run ++ c :: rest ∧ (∀ d ∈ run, isBlank d = true) ∧ isBlank c = false := by
  refine ⟨text.takeWhile isBlank, ?_, takeWhile_all isBlank text, ?_⟩
  · rw [← found]
    exact ( takeWhile_append_dropWhile).symm
  · have other := head?_dropWhile_not isBlank text
    rw [show text.dropWhile isBlank = c :: rest from found] at other
    simpa using other

theorem Fits.wordsOf_blank {list : List Piece} (fits : Fits list)
    (blank : ∀ c ∈ written list, isBlank c = true) : wordsOf list = [] := by
  cases words : wordsOf list with
  | nil => rfl
  | cons word =>
    have member : (Lexeme.token word.1, word.2) ∈ list := mem_wordsOf (by rw [words]; exact mem_cons_self)
    have token := fits.isToken member
    obtain ⟨c, _, value⟩ := exists_cons_of_ne_nil token.ne_nil
    have within : c ∈ word.2 := by rw [value]; exact mem_cons_self
    have isBlank := blank c (mem_flatMap.mpr ⟨_, member, within⟩)
    rw [token.not_blank c within] at isBlank
    cases isBlank

theorem Fits.blank_append {list : List Piece} (fits : Fits list) {run : Text}
    (split : written list = run ++ c :: rest) (blank : ∀ d ∈ run, isBlank d = true) (other : isBlank c = false) :
    ∃ blanks piece after more, list = blanks ++ piece :: after ∧ written blanks = run ∧ wordsOf blanks = [] ∧
      piece.2 = c :: more ∧ rest = more ++ written after := by
  induction list generalizing run with
  | nil => simp at split
  | cons piece list ih =>
    obtain ⟨d, more, value, -⟩ := fits.read
    rw [written_cons, value] at split
    cases run with
    | nil =>
      obtain ⟨rfl, rfl⟩ := List.cons.inj split
      exact ⟨[], piece, list, more, rfl, rfl, rfl, value, rfl⟩
    | cons =>
      obtain ⟨rfl, after⟩ := List.cons.inj split
      have blankHead := blank d mem_cons_self
      obtain ⟨_, text⟩ := piece
      obtain rfl : text = d :: more := value
      rcases fits.sound _ mem_cons_self with rfl | ⟨_, rfl⟩
      · cases fits.gap with
        | blank =>
          obtain ⟨blanks, piece, others, more, rfl, written, none, value, rfl⟩ :=
            ih fits.tail after fun d member => blank d (mem_cons_of_mem _ member)
          refine ⟨(.gap, [d]) :: blanks, piece, others, more, rfl, ?_, none, value, rfl⟩
          rw [written_cons, written, singleton_append]
        | line | block => cases blankHead
      · have token := fits.isToken mem_cons_self
        rw [token.not_blank d mem_cons_self] at blankHead
        cases blankHead

end Lexis

end SysYTools
