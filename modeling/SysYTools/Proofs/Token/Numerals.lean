import SysYTools.Proofs.Repair.Calls
import SysYTools.Proofs.Token.Spacing

/-!
Two descriptions of literals. The reader of lexemes finds literals in a program, and the form of a text
suggests a type for it: they agree on the texts that are one literal, but for the octal texts that no number
is read from.
-/

namespace SysYTools

open List Lexis Lexeme

variable {digits power text : Text} {kind : TokenKind}

/-- The tokens of a text are one of a kind and the end. -/
def Token.ScansTo (kind : TokenKind) (file : String) (text : Text) : Prop :=
  ∃ tokens, Token.scan file text = .ok tokens ∧ tokens.map (·.kind) = [kind, .endOfInput]

/-- A text with a leading zero that holds a digit which is no octal one. -/
def Literal.IsBadOctal (text : Text) : Prop :=
  1 < text.length ∧ text.head? = some '0' ∧ (∀ mark ∈ ['x', 'X'], ¬ ['0', mark] <+: text) ∧ ('8' ∈ text ∨ '9' ∈ text)

/-! ## The forms of a text -/

namespace Literal

theorem isDigitText_iff (ascii : ∀ c ∈ text, c.toNat < 128) : isDigitText text = true ↔ text ≠ [] ∧ AllDigits text := by
  simp only [isDigitText, Bool.and_eq_true, Bool.not_eq_true', isEmpty_eq_false_iff, all_eq_true]
  exact and_congr_right fun _ => forall₂_congr fun c member => isDecimalDigit_iff_of_low (ascii c member)

theorem isHexText_iff : isHexText text = true ↔ text ≠ [] ∧ ∀ c ∈ text, isHexDigit c = true := by
  simp [isHexText, isHexDigit]

section

variable (ascii : ∀ c ∈ text, c.toNat < 128)
include ascii

theorem isExponentForm_iff : isExponentForm text = true ↔ text = [] ∨ IsExponent text := by
  have ascii' : ∀ {digits : Text}, digits <:+ text → ∀ c ∈ digits, c.toNat < 128 :=
    fun isSuffix c member => ascii c (isSuffix.mem member)
  have signed : ∀ {mark sign : Char} {digits : Text}, sign = '+' ∨ sign = '-' →
      (isExponentMark mark = true ∧ digits ≠ [] ∧ AllDigits digits ↔ IsExponent (mark :: sign :: digits)) := by
    intro mark sign digits isSign
    constructor
    · rintro ⟨isMark, one, all⟩
      exact .signed isMark isSign one all
    · rintro (⟨_, _, all⟩ | ⟨isMark, _, one, all⟩)
      · rcases isSign with rfl | rfl <;> cases all _ mem_cons_self
      · exact ⟨isMark, one, all⟩
  fun_cases isExponentForm text with
  | case1 => simp
  | case2 mark => simpa [isExponentMark, isDigitText_iff (ascii' ⟨[mark, '+'], rfl⟩)] using signed (.inl rfl)
  | case3 mark => simpa [isExponentMark, isDigitText_iff (ascii' ⟨[mark, '-'], rfl⟩)] using signed (.inr rfl)
  | case4 mark _ noPlus noMinus =>
    rw [Bool.and_eq_true, isDigitText_iff (ascii' ⟨[mark], rfl⟩), eq_false (cons_ne_nil _ _), false_or]
    constructor
    · rintro ⟨isMark, one, all⟩
      exact .plain isMark one all
    · rintro (⟨isMark, one, all⟩ | ⟨_, sign, _, _⟩)
      · exact ⟨isMark, one, all⟩
      · rcases sign with rfl | rfl
        · exact (noPlus _ rfl).elim
        · exact (noMinus _ rfl).elim

theorem isIntForm_iff :
    isIntForm text = true ↔ (∃ mark digits, (mark = 'x' ∨ mark = 'X') ∧ text = '0' :: mark :: digits ∧ digits ≠ [] ∧
      ∀ c ∈ digits, isHexDigit c = true) ∨ text ≠ [] ∧ AllDigits text := by
  have letter : ∀ {mark : Char} {digits : Text}, mark = 'x' ∨ mark = 'X' → ¬ AllDigits ('0' :: mark :: digits) := by
    rintro mark digits (rfl | rfl) all <;> cases all _ (mem_cons_of_mem _ mem_cons_self)
  fun_cases isIntForm text with
  | case1 => simp [isHexText_iff, letter (.inl rfl)]
  | case2 => simp [isHexText_iff, letter (.inr rfl)]
  | case3 _ noLower noUpper =>
    rw [isDigitText_iff ascii, or_iff_right]
    rintro ⟨_, _, rfl | rfl, shape, -⟩
    · exact noLower _ shape
    · exact noUpper _ shape

theorem isFloatForm_iff : isFloatForm text = true ↔ IsFloat text ∨ text ≠ [] ∧ AllDigits text := by
  have ascii' : ∀ {part : Text}, part <:+ text → ∀ c ∈ part, c.toNat < 128 :=
    fun isSuffix c member => ascii c (isSuffix.mem member)
  have run : ∀ {part : Text}, part <:+ text → AllDigits (part.takeWhile isDecimalDigit) := fun isSuffix c member =>
    (isDecimalDigit_iff_of_low (ascii' isSuffix c (( takeWhile_prefix _).mem member))).mp ( mem_takeWhile_imp member)
  rw [isFloatForm]
  constructor
  · have whole := run suffix_rfl
    have join := @takeWhile_append_dropWhile _ isDecimalDigit text
    generalize text.takeWhile isDecimalDigit = before at whole join
    generalize text.dropWhile isDecimalDigit = after at join
    intro form
    simp only at form
    split at form
    next rest =>
      have isSuffix : rest <:+ text := ⟨before ++ ['.'], by simpa using join⟩
      simp only [Bool.and_eq_true, Bool.not_eq_true', Bool.and_eq_false_iff, isEmpty_eq_false_iff] at form
      have power := (isExponentForm_iff (ascii' (( dropWhile_suffix _).trans isSuffix))).mp form.2
      have float := IsFloat.point whole (run isSuffix) form.1 power
      rw [append_assoc, cons_append, takeWhile_append_dropWhile, join] at float
      exact .inl float
    · simp only [Bool.and_eq_true, Bool.not_eq_true', isEmpty_eq_false_iff] at form
      obtain rfl | power := (isExponentForm_iff (ascii' ⟨before, join⟩)).mp form.2
      · rw [append_nil] at join
        exact .inr (join ▸ ⟨form.1, whole⟩)
      · exact .inl (join ▸ .power whole form.1 power)
  · have stop : ∀ {power : Text}, power = [] ∨ IsExponent power → ∀ c ∈ power.head?, isDecimalDigit c = false := by
      rintro power (rfl | (⟨mark, -, -⟩ | ⟨mark, -, -, -⟩)) c ⟨⟩
      all_goals
        simp only [isExponentMark, Bool.or_eq_true, beq_iff_eq] at mark
        rcases mark with rfl | rfl <;> rfl
    have plain : ∀ {whole power : Text}, AllDigits whole → whole ≠ [] → power = [] ∨ IsExponent power →
        whole ++ power = text → isFloatForm text = true := by
      rintro whole power digits one isPower rfl
      obtain ⟨taken, left⟩ := Text.span_append digits.isDecimalDigit (stop isPower)
      rw [isFloatForm, taken, left]
      split
      · obtain empty | (⟨mark, -, -⟩ | ⟨mark, -, -, -⟩) := isPower
        · cases empty
        all_goals cases mark
      · simp [one, (isExponentForm_iff (ascii' ⟨whole, rfl⟩)).mpr isPower]
    rintro (float | ⟨one, all⟩)
    · cases float with
      | @point whole part power wholeDigits partDigits one isPower =>
        have exponent := (isExponentForm_iff (ascii' ⟨_, rfl⟩)).mpr isPower
        rw [append_assoc, cons_append]
        obtain ⟨taken, left⟩ := @Text.span_append isDecimalDigit whole ('.' :: (part ++ power))
          wholeDigits.isDecimalDigit (by rintro c ⟨⟩; rfl)
        obtain ⟨taken', left'⟩ := Text.span_append partDigits.isDecimalDigit (stop isPower)
        rw [taken, left]
        simpa [taken', left', exponent] using one
      | @power whole power wholeDigits one isPower => exact plain wholeDigits one (.inr isPower) rfl
    · exact plain all one (.inl rfl) (append_nil text)

theorem typeOf?_eq_float_iff (stripped : text.strip = text) : typeOf? text = some .float ↔ IsFloat text := by
  simp only [typeOf?, stripped]
  split
  next isInt =>
    simp only [Option.some.injEq, reduceCtorEq, false_iff]
    intro float
    rcases (isIntForm_iff ascii).mp isInt with ⟨_, _, isMark, rfl, -⟩ | ⟨-, all⟩
    · have plain := float.plain
      rcases isMark with rfl | rfl <;> cases plain
    · exact float.not_allDigits all
  next other =>
    have notDigits : ¬ (text ≠ [] ∧ AllDigits text) := fun all => other ((isIntForm_iff ascii).mpr (.inr all))
    simp [isFloatForm_iff ascii, notDigits]

theorem typeOf?_eq_int_iff (stripped : text.strip = text) :
    typeOf? text = some .int ∧ ¬ IsBadOctal text ↔ IsInteger text := by
  have isInt : typeOf? text = some .int ↔ isIntForm text = true := by
    simp only [typeOf?, stripped]
    split_ifs <;> simp_all
  rw [isInt, isIntForm_iff ascii]
  constructor
  · rintro ⟨⟨mark, digits, isMark, rfl, one, all⟩ | ⟨one, all⟩, good⟩
    · exact .hexadecimal isMark one all
    · refine isInteger_of_digits all one ?_
      rw [Bool.eq_false_iff]
      intro bad
      simp only [Bool.and_eq_true, decide_eq_true_eq, beq_iff_eq, any_eq_true, Bool.or_eq_true] at bad
      obtain ⟨⟨long, zero⟩, c, member, high⟩ := bad
      refine good ⟨long, zero, ?_, ?_⟩
      · intro mark isMark start
        have digit := all mark (start.mem (by simp))
        simp only [mem_cons, not_mem_nil, or_false] at isMark
        rcases isMark with rfl | rfl <;> cases digit
      · rcases high with rfl | rfl
        · exact .inl member
        · exact .inr member
  · intro form
    cases form with
    | decimal digit nonzero all =>
      exact ⟨.inr ⟨by simp, forall_mem_cons.mpr ⟨digit, all⟩⟩, fun bad => nonzero (by simpa using bad.2.1)⟩
    | @octal rest all =>
      have low : ∀ c, isOctalDigit c = false → c ∉ '0' :: rest := by
        intro c high member
        have digit := (forall_mem_cons (p := fun c => isOctalDigit c = true)).mpr ⟨rfl, all⟩ c member
        rw [high] at digit
        cases digit
      refine ⟨.inr ⟨by simp, forall_mem_cons.mpr ⟨rfl, fun c member => isDigit_of_isOctalDigit (all c member)⟩⟩, ?_⟩
      exact fun bad => bad.2.2.2.elim (low '8' rfl) (low '9' rfl)
    | @hexadecimal mark digits isMark one all =>
      exact ⟨.inl ⟨mark, digits, isMark, rfl, one, all⟩, fun bad => bad.2.2.1 mark (by simpa using isMark) ⟨digits, rfl⟩⟩

end

end Literal

/-! ## A literal alone -/

namespace Lexis

theorem pieces_alone {c : Char} {rest : Text} {lexeme : Lexeme} (found : Lexeme.read c rest = (lexeme, rest.length)) :
    pieces (c :: rest) = [(lexeme, c :: rest)] := by
  simp [pieces_cons found]

theorem pieces_of_isInteger (form : IsInteger text) : pieces text = [(.token .integerLiteral, text)] := by
  have ofDigits : ∀ {c : Char} {rest : Text}, AllDigits (c :: rest) →
      (1 < (c :: rest).length && (c :: rest).head? == some '0' &&
        (c :: rest).any (fun c => c == '8' || c == '9')) = false →
      pieces (c :: rest) = [(.token .integerLiteral, c :: rest)] := by
    intro c rest all good
    have whole : digits (c :: rest) = c :: rest := takeWhile_eq_self_iff.mpr all
    have plain : (c == '0' && (rest.head? == some 'x' || rest.head? == some 'X')) = false := by
      cases rest with
      | nil => simp
      | cons d =>
        have digit := all d (by simp)
        have letters : d ≠ 'x' ∧ d ≠ 'X' := by constructor <;> (rintro rfl; cases digit)
        simp [letters]
    refine pieces_alone ?_
    rw [read_number (.inl (all c mem_cons_self)) plain]
    simpa [decimal, whole, fraction, exponent] using good
  cases form with
  | decimal digit nonzero all => exact ofDigits (forall_mem_cons.mpr ⟨digit, all⟩) (by simp [nonzero])
  | octal all =>
    refine ofDigits (forall_mem_cons.mpr ⟨rfl, fun c member => isDigit_of_isOctalDigit (all c member)⟩) ?_
    rw [Bool.and_eq_false_iff, any_eq_false]
    refine .inr (forall_mem_cons.mpr ⟨by decide, fun c member => ?_⟩)
    have digit := all c member
    simp only [isOctalDigit, Bool.and_eq_true, bne_iff_ne] at digit
    simp [digit]
  | @hexadecimal mark digits isMark one all =>
    refine pieces_alone ?_
    have whole : digits.takeWhile isHexDigit = digits := takeWhile_eq_self_iff.mpr all
    rcases isMark with rfl | rfl <;> simp [Lexeme.read, isGapChar, hexadecimal, whole, one]

theorem pieces_of_isFloat (form : IsFloat text) : pieces text = [(.token .floatLiteral, text)] := by
  obtain ⟨c, rest, rfl⟩ := exists_cons_of_ne_nil form.ne_nil
  have start : c.isDigit = true ∨ c = '.' ∧ rest.head?.any Char.isDigit = true := by
    rcases form.head with digit | rfl
    · exact .inl digit
    · exact .inr ⟨rfl, form.digit_after_point⟩
  have whole : number (c :: rest) = c :: rest := by
    refine (number_isPrefix _).eq_of_length_le ?_
    generalize c :: rest = text at form
    cases form with
    | point wholeDigits partDigits _ power => simpa using length_le_number_of_point [] wholeDigits partDigits power
    | power wholeDigits _ power => simpa using length_le_number_of_power [] wholeDigits power
  refine pieces_alone ?_
  rw [read_number start form.plain]
  have length := (decimal_token (c :: rest)).1
  rw [whole, length_cons, Nat.add_sub_cancel] at length
  refine Prod.ext ?_ length
  simp only [decimal]
  refine if_pos (Bool.not_eq_false _ ▸ fun unmarked => ?_)
  simp only [Bool.or_eq_false_iff, Bool.not_eq_false', List.isEmpty_iff] at unmarked
  rw [number, unmarked.2, unmarked.1, append_nil, append_nil] at whole
  exact form.not_allDigits (whole ▸ allDigits_digits (c :: rest))

theorem scansTo_iff {file : String} :
    Token.ScansTo kind file text ↔ Clean text ∧ ∃ value, wordsOf (pieces text) = [(kind, value)] := by
  have kinds : (wordsAt file [] (pieces text)).map (·.kind) = (wordsOf (pieces text)).map (·.1) := by
    rw [← map_wordOf_wordsAt file [], map_map]
    rfl
  have one : ((wordsOf (pieces text)).map (·.1) = [kind]) ↔ ∃ value, wordsOf (pieces text) = [(kind, value)] := by simp
  have ends : (wordsAt file [] (pieces text) ++ [tokenAfter file text .endOfInput []]).map (·.kind) =
      [kind, .endOfInput] ↔ (wordsOf (pieces text)).map (·.1) = [kind] := by
    rw [map_append, kinds]
    exact @append_left_inj _ _ [kind] [.endOfInput]
  rw [← one, ← ends]
  constructor
  · rintro ⟨_, scanned, same⟩
    obtain ⟨clean, rfl⟩ := scan_eq_ok_iff.mp scanned
    exact ⟨clean, same⟩
  · exact fun ⟨clean, same⟩ => ⟨_, scan_eq_ok_iff.mpr ⟨clean, rfl⟩, same⟩

theorem pieces_of_scansTo {file : String} (stripped : text.strip = text)
    (uncommented : ∀ mark ∈ ['/', '*'], ¬ ['/', mark] <:+: text) (scans : Token.ScansTo kind file text) :
    pieces text = [(.token kind, text)] := by
  obtain ⟨clean, value, words⟩ := scansTo_iff.mp scans
  have fits : Fits (pieces text) := ⟨by rw [written_pieces], clean⟩
  have quiet : Uncommented (pieces text) := by
    intro piece member start
    have within : piece.2 <:+: text := by
      obtain ⟨front, back, split⟩ := append_of_mem member
      exact ⟨written front, written back, by rw [← written_pieces text, split]; simp⟩
    rcases start with start | start
    · exact uncommented '/' (by simp) (start.isInfix.trans within)
    · exact uncommented '*' (by simp) (start.isInfix.trans within)
  obtain ⟨left, right, split, none, none'⟩ := wordsOf_eq_cons words
  have member : (Lexeme.token kind, value) ∈ pieces text := by simp [split]
  have token := isToken_of_mem_pieces member
  rw [split] at fits quiet
  have before := quiet.left.blank_of_none fits.left none
  have after := quiet.right.tail.blank_of_none fits.right.tail none'
  -- what is left of the text without the blanks is the token
  have same : text.strip = value := by
    obtain ⟨front, last, rfl⟩ := (eq_nil_or_concat' value).resolve_left token.ne_nil
    have head : ∀ c ∈ (front ++ [last] ++ written right).head?, isBlank c = false := by
      intro c head
      rw [head?_append_of_ne_nil _ (by simp)] at head
      exact token.not_blank c (mem_of_mem_head? head)
    rw [← written_pieces text, split, written_append, written_cons, Text.strip, stripLeft_append before head,
      stripRight_append after, stripRight_concat (token.not_blank last (by simp))]
  obtain rfl : text = value := stripped.symm.trans same
  exact pieces_value member

end Lexis

theorem literal_forms_agree (file : String) (ascii : ∀ c ∈ text, c.toNat < 128) (stripped : text.strip = text)
    (uncommented : ∀ mark ∈ ['/', '*'], ¬ ['/', mark] <:+: text) :
    (Token.ScansTo .floatLiteral file text ↔ Literal.typeOf? text = some .float) ∧
      (Token.ScansTo .integerLiteral file text ↔ Literal.typeOf? text = some .int ∧ ¬ Literal.IsBadOctal text) ∧
      (Token.ScansTo .integerLiteral file text → ((Literal.split text).1 = .decimal → text.length ≤ 4300) →
        Literal.intValue (String.ofList text) = .ok ((Literal.split text).1.valueOf (Literal.split text).2)) := by
  have scans : ∀ kind, Token.ScansTo kind file text ↔ pieces text = [(.token kind, text)] := fun kind =>
    ⟨pieces_of_scansTo stripped uncommented, fun alone => scansTo_iff.mpr ⟨by simp [Clean, Sound, alone], text, by
      simp [wordsOf, alone]⟩⟩
  have token : ∀ kind, pieces text = [(.token kind, text)] → IsToken kind text := fun kind alone =>
    isToken_of_mem_pieces (by rw [alone]; exact mem_cons_self)
  have integer : Token.ScansTo .integerLiteral file text ↔ IsInteger text :=
    (scans _).trans ⟨fun alone => (token _ alone).isInteger, pieces_of_isInteger⟩
  have float : Token.ScansTo .floatLiteral file text ↔ IsFloat text :=
    (scans _).trans ⟨fun alone => (token _ alone).isFloat, pieces_of_isFloat⟩
  rw [float, integer, Literal.typeOf?_eq_float_iff ascii stripped, Literal.typeOf?_eq_int_iff ascii stripped]
  refine ⟨Iff.rfl, Iff.rfl, fun form short => ?_⟩
  have value := @Literal.intValue_eq (String.ofList text) (by rwa [String.toList_ofList])
  rw [String.toList_ofList] at value
  rw [value, if_neg]
  intro long
  have decimal := ((Literal.intValue_eq_readInt _).2.mp long).1
  rw [String.toList_ofList] at decimal
  simp only [Literal.isOverlong, String.toList_ofList, Bool.and_eq_true, decide_eq_true_eq] at long
  exact absurd long.2 (Nat.not_lt.mpr (short decimal))

theorem literal_forms_agree_hexadecimal :
    Token.ScansTo .integerLiteral "t.sy" ['0', 'x', '1', 'F'] ∧
      Literal.intValue (String.ofList ['0', 'x', '1', 'F']) = .ok 31 := by
  obtain ⟨-, integer, value⟩ := @literal_forms_agree ['0', 'x', '1', 'F'] "t.sy" (by simp) (by decide)
    (by simp [infix_cons_iff])
  have scans := integer.mpr ⟨by decide, by simp [Literal.IsBadOctal]⟩
  exact ⟨scans, value scans (by decide +kernel)⟩

/-- A comment behind a literal is no token, but it is no part of the form of a literal either. -/
theorem literal_forms_differ_at_comment :
    (∀ c ∈ ['1', '.', '5', '/', '/'], c.toNat < 128) ∧ Text.strip ['1', '.', '5', '/', '/'] = ['1', '.', '5', '/', '/'] ∧
      Token.ScansTo .floatLiteral "t.sy" ['1', '.', '5', '/', '/'] ∧
      Literal.typeOf? ['1', '.', '5', '/', '/'] = none := by
  have cut : pieces ['1', '.', '5', '/', '/'] = [(.token .floatLiteral, ['1', '.', '5']), (.gap, ['/', '/'])] := by
    decide +kernel
  refine ⟨by simp, by decide, scansTo_iff.mpr ⟨by simp [Clean, Sound, cut], ['1', '.', '5'], ?_⟩, by decide +kernel⟩
  simp only [cut]
  rfl

end SysYTools
