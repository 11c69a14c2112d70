import SysYTools.Proofs.Token.Cut

/-!
The pieces of a text, apart from their places. A piece that is read without a problem is read the same
way when other text comes to stand behind it, as long as that text cannot join it. So the pieces of a
text that is put together are the pieces of its parts, and a scan of it finds the words of the parts.
-/

namespace SysYTools.Lexis

open List Lexeme

variable {c mark : Char} {kind : TokenKind} {left right : List (Lexeme × Text)} {length : Nat} {lexeme : Lexeme}
  {more new old rest text value : Text}

/-! ## Characters that join nothing -/

/-- A blank, a bracket, a comma or a semicolon: it is a piece of its own wherever it stands outside a
comment. -/
def isDelimiter (c : Char) : Bool := isGapChar c || ['(', ')', '[', ']', '\x7b', '\x7d', ',', ';'].contains c

/-- The text starts with a character that belongs to no number that begins before it. -/
def Gentle (text : Text) : Prop := ∀ c ∈ text.head?, isDelimiter c = true ∨ isNameStart c = true

/-- A piece ends where the text after it starts. -/
structure Apart (piece after : Text) : Prop where
  line : ['/', '/'] <+: piece → ∀ c ∈ after.head?, c = '\n'
  named : ∀ c ∈ after.head?, isNameStart c = true → ∀ last ∈ piece.getLast?, isNameChar last = false ∧ last ≠ '.'

theorem Gentle.nil : Gentle [] := by simp [Gentle]

theorem Apart.nil (piece : Text) : Apart piece [] := ⟨by simp, by simp⟩

theorem isDelimiter_cases (delimits : isDelimiter c = true) :
    c = ' ' ∨ c = '\t' ∨ c = '\r' ∨ c = '\n' ∨ c = '(' ∨ c = ')' ∨ c = '[' ∨ c = ']' ∨
      c = '\x7b' ∨ c = '\x7d' ∨ c = ',' ∨ c = ';' := by
  simp only [isDelimiter, isGapChar, Bool.or_eq_true, beq_iff_eq, contains_iff_mem,
    mem_cons, not_mem_nil, or_false] at delimits
  tauto

theorem not_isNameChar_of_isDelimiter (delimits : isDelimiter c = true) : isNameChar c = false := by
  rcases isDelimiter_cases delimits with
    rfl | rfl | rfl | rfl | rfl | rfl | rfl | rfl | rfl | rfl | rfl | rfl <;> rfl

theorem isNameChar_of_isDigit (digit : c.isDigit = true) : isNameChar c = true := by simp [isNameChar, digit]

theorem isNameChar_of_isHexDigit (digit : isHexDigit c = true) : isNameChar c = true := by
  simp only [isHexDigit, Bool.or_eq_true, Bool.and_eq_true, decide_eq_true_eq] at digit
  rw [isNameChar, Bool.or_eq_true, isNameStart_iff]
  rcases digit with (digit | ⟨low, high⟩) | ⟨low, high⟩
  · exact .inr digit
  · have low : 97 ≤ c.toNat := low
    have high : c.toNat ≤ 102 := high
    exact .inl (by omega)
  · have low : 65 ≤ c.toNat := low
    have high : c.toNat ≤ 70 := high
    exact .inl (by omega)

theorem Gentle.head {text : Text} (gentle : Gentle text) {c : Char} (head : c ∈ text.head?) :
    c.isDigit = false ∧ c ≠ '.' ∧ c ≠ '+' ∧ c ≠ '-' ∧ c ≠ '/' ∧ c ≠ '*' ∧ c ≠ '=' ∧ c ≠ '&' ∧ c ≠ '|' := by
  rcases gentle c head with delimits | named
  · rcases isDelimiter_cases delimits with
      rfl | rfl | rfl | rfl | rfl | rfl | rfl | rfl | rfl | rfl | rfl | rfl <;> decide
  · have undigit : c.isDigit = false := by
      by_contra digit
      rw [not_isNameStart_of_isDigit (by simpa using digit)] at named
      cases named
    refine ⟨undigit, ?_⟩
    refine ⟨?_, ?_, ?_, ?_, ?_, ?_, ?_, ?_⟩ <;> (rintro rfl; revert named; decide)

theorem Apart.head {piece after : Text} (apart : Apart piece after) (gentle : Gentle after) {c last : Char}
    (head : c ∈ after.head?) (ends : last ∈ piece.getLast?)
    (joins : isNameChar last = true ∨ last = '.') : isNameChar c = false := by
  rcases gentle c head with delimits | named
  · exact not_isNameChar_of_isDelimiter delimits
  · obtain ⟨other, unpoint⟩ := apart.named c head named last ends
    rcases joins with joins | joins
    · rw [joins] at other
      cases other
    · exact absurd joins unpoint

/-! ## Reading a piece before another text -/

theorem takeWhile_swap {test : Char → Bool} (short : ((more ++ old).takeWhile test).length ≤ more.length)
    (stop : (∀ c ∈ more, test c = true) → ∀ c ∈ new.head?, test c = false) :
    (more ++ new).takeWhile test = (more ++ old).takeWhile test := by
  induction more with
  | nil =>
    have none : old.takeWhile test = [] := length_eq_zero_iff.mp (Nat.le_zero.mp short)
    rw [nil_append, nil_append, none]
    cases new with
    | nil => rfl
    | cons c => simp [stop (by simp) c (by simp)]
  | cons d _ ih =>
    rw [cons_append, cons_append]
    cases holds : test d with
    | false => simp [holds]
    | true =>
      simp only [cons_append, takeWhile_cons, holds, if_true, length_cons, Nat.add_le_add_iff_right] at short ⊢
      rw [ih short (fun all => stop (by simpa [holds] using all))]

theorem digits_swap (gentle : Gentle new) (short : (digits (more ++ old)).length ≤ more.length) :
    digits (more ++ new) = digits (more ++ old) :=
  takeWhile_swap short fun _ _ head => (gentle.head head).1

theorem commentBody_swap (closed : commentBody (more ++ old) = (length, true)) (short : length ≤ more.length) :
    commentBody (more ++ new) = (length, true) := by
  obtain ⟨body, rest, split, size, inner⟩ := commentBody_closed closed
  obtain ⟨after, rfl⟩ : body ++ ['*', '/'] <+: more := by
    have start : body ++ ['*', '/'] <+: more ++ old := by
      rw [split]
      exact prefix_append ..
    refine prefix_of_prefix_length_le start (prefix_append ..) ?_
    simpa [← size] using short
  clear closed split short
  subst size
  induction body with
  | nil => simp [commentBody]
  | cons c body ih =>
    have inner' : ¬ ['*', '/'] <:+: body := fun within => inner (within.trans (suffix_cons c body).isInfix)
    have opened : ∀ d rest, body ++ ['*', '/'] ++ after ++ new = d :: rest → c = '*' → d ≠ '/' := by
      intro d rest shape star
      subst star
      rintro rfl
      cases body with
      | nil => cases shape
      | cons _ body =>
        obtain ⟨rfl, -⟩ := List.cons.inj shape
        exact inner (prefix_append ['*', '/'] body).isInfix
    have step := ih inner'
    rw [cons_append, cons_append, cons_append]
    generalize body ++ ['*', '/'] ++ after ++ new = tail at opened step ⊢
    unfold commentBody
    split
    next shape => cases shape
    next rest shape =>
      obtain ⟨rfl, rfl⟩ := List.cons.inj shape
      exact absurd rfl (opened '/' rest rfl rfl)
    next d rest other shape =>
      obtain ⟨rfl, rfl⟩ := List.cons.inj shape
      simp [step]

theorem fraction_swap (gentle : Gentle new) (short : (fraction (more ++ old)).length ≤ more.length) :
    fraction (more ++ new) = fraction (more ++ old) := by
  cases more with
  | nil =>
    have none : fraction old = [] := length_eq_zero_iff.mp (Nat.le_zero.mp short)
    rw [nil_append, nil_append, none]
    cases new with
    | nil => rfl
    | cons c =>
      have unpoint : c ≠ '.' := (gentle.head rfl).2.1
      unfold fraction
      split
      next shape => exact absurd (List.cons.inj shape).1 unpoint
      · rfl
  | cons c =>
    by_cases point : c = '.'
    · subst point
      simp only [fraction, cons_append, length_cons, Nat.add_le_add_iff_right] at short ⊢
      rw [digits_swap gentle short]
    · have other : ∀ tail, fraction (c :: tail) = [] := by
        intro tail
        unfold fraction
        split
        next shape => exact absurd (List.cons.inj shape).1 point
        · rfl
      rw [cons_append, cons_append, other, other]

theorem exponent_swap (gentle : Gentle new) (short : (exponent (more ++ old)).length ≤ more.length)
    (stop : more = [] → ∀ c ∈ new.head?, isExponentMark c = false) :
    exponent (more ++ new) = exponent (more ++ old) := by
  match more with
  | [] =>
    have none : exponent old = [] := length_eq_zero_iff.mp (Nat.le_zero.mp short)
    rw [nil_append, nil_append, none]
    cases new with
    | nil => rfl
    | cons c => simp [exponent, stop rfl c (by simp)]
  | [mark] =>
    rcases exponent_isExponent (mark :: old) with none | form
    · rw [singleton_append, singleton_append, none]
      cases new with
      | nil => simp [exponent]
      | cons c rest =>
        have head := gentle.head (head?_cons (a := c) (l := rest))
        simp [exponent, digits, head.1, head.2.2.1, head.2.2.2.1]
    · rw [singleton_append] at short
      generalize exponent (mark :: old) = power at form short
      cases form with
      | plain | signed => simp_all
  | mark :: sign :: more =>
    simp only [cons_append, exponent] at short ⊢
    by_cases marked : isExponentMark mark = true
    · by_cases signed : (sign == '+' || sign == '-') = true
      · have run : (digits (more ++ old)).length ≤ more.length := by
          by_cases none : digits (more ++ old) = []
          · simp [none]
          · simpa [marked, signed, none] using short
        rw [if_pos signed, if_pos signed, digits_swap gentle run]
      · have run : (digits ((sign :: more) ++ old)).length ≤ (sign :: more).length := by
          by_cases none : digits ((sign :: more) ++ old) = []
          · rw [none]
            exact Nat.zero_le _
          · rw [cons_append] at none
            simpa [marked, signed, none] using short
        have same := digits_swap gentle run
        rw [cons_append, cons_append] at same
        rw [if_neg signed, if_neg signed, same]
    · have unmarked : isExponentMark mark = false := by simpa using marked
      simp [unmarked]

/-- A number that ends within a text ends there too when another text follows that does not join it. -/
theorem decimal_swap {c : Char} {more old new : Text} (gentle : Gentle new)
    (short : (decimal (c :: more ++ old)).2 ≤ more.length)
    (apart : (decimal (c :: more ++ old)).2 = more.length → Apart (c :: more) new) :
    decimal (c :: more ++ new) = decimal (c :: more ++ old) := by
  generalize shape : c :: more = text at *
  have size : text.length = more.length + 1 := by rw [← shape]; rfl
  -- the parts of the number, each within what the parts before it leave of the text
  have whole : digits (text ++ new) = digits (text ++ old) := by
    refine digits_swap gentle ?_
    simp only [decimal, length_append] at short
    omega
  obtain ⟨afterWhole, splitWhole⟩ : digits (text ++ old) <+: text := by
    refine prefix_of_prefix_length_le (digits_isPrefix _) (prefix_append ..) ?_
    simp only [decimal, length_append] at short
    omega
  generalize wholeEq : digits (text ++ old) = run at *
  have dropWhole : ∀ tail, (text ++ tail).drop run.length = afterWhole ++ tail := by
    intro tail
    rw [← splitWhole, append_assoc, drop_left]
  have sizeWhole : run.length + afterWhole.length = text.length := by rw [← splitWhole, length_append]
  simp only [decimal, wholeEq, dropWhole, length_append] at short apart
  have part : fraction (afterWhole ++ new) = fraction (afterWhole ++ old) := fraction_swap gentle (by omega)
  obtain ⟨afterPart, splitPart⟩ : fraction (afterWhole ++ old) <+: afterWhole :=
    prefix_of_prefix_length_le (fraction_isPrefix _) (prefix_append ..) (by omega)
  generalize partEq : fraction (afterWhole ++ old) = point at *
  have dropPart : ∀ tail, (text ++ tail).drop (run.length + point.length) = afterPart ++ tail := by
    intro tail
    rw [← drop_drop, dropWhole, ← splitPart, append_assoc, drop_left]
  have sizePart : point.length + afterPart.length = afterWhole.length := by rw [← splitPart, length_append]
  simp only [dropPart] at short apart
  have power : exponent (afterPart ++ new) = exponent (afterPart ++ old) := by
    refine exponent_swap gentle (by omega) ?_
    -- all of the text is whole part and fraction, so it ends in a digit or in the point
    intro empty d head
    subst empty
    have none : (exponent old).length = 0 := by
      simp only [nil_append, length_nil, Nat.add_zero] at short sizePart
      omega
    have touching : run.length + point.length + (exponent ([] ++ old)).length - 1 = more.length := by
      simp only [nil_append, length_nil, Nat.add_zero] at short sizePart ⊢
      omega
    have nonempty : text ≠ [] := by rw [← shape]; simp
    obtain ⟨last, ends⟩ : ∃ last, text.getLast? = some last := ⟨_, getLast?_eq_some_getLast nonempty⟩
    have joins : isNameChar last = true ∨ last = '.' := by
      have member : last ∈ run ++ point := by
        rw [← splitWhole, ← splitPart, append_nil] at ends
        exact mem_of_mem_getLast? ends
      rcases mem_append.mp member with inWhole | inPart
      · rw [← wholeEq] at inWhole
        exact .inl (isNameChar_of_isDigit (allDigits_digits _ _ inWhole))
      · rcases fraction_eq (afterWhole ++ old) with none | ⟨_, allDigits, found⟩
        · rw [partEq] at none
          simp [none] at inPart
        · rw [partEq] at found
          rw [found] at inPart
          rcases mem_cons.mp inPart with rfl | inRun
          · exact .inr rfl
          · exact .inl (isNameChar_of_isDigit (allDigits _ inRun))
    have other := (apart touching).head gentle head ends joins
    cases marked : isExponentMark d with
    | false => rfl
    | true =>
      simp only [isExponentMark, Bool.or_eq_true, beq_iff_eq] at marked
      rcases marked with rfl | rfl <;> exact absurd other (by decide)
  simp only [decimal, whole, wholeEq, dropWhole, part, partEq, dropPart, power]

theorem hexadecimal_swap (isMark : mark = 'x' ∨ mark = 'X') (gentle : Gentle new)
    (found : hexadecimal (mark :: more ++ old) = (.token kind, length)) (short : length ≤ (mark :: more).length)
    (apart : length = (mark :: more).length → Apart (c :: mark :: more) new) :
    hexadecimal (mark :: more ++ new) = (.token kind, length) := by
  obtain bad | ⟨_, -, size⟩ := hexadecimal_token found
  · cases bad
  rw [cons_append, drop_succ_cons, drop_zero] at size
  rw [length_cons] at short apart
  have same : (more ++ new).takeWhile isHexDigit = (more ++ old).takeWhile isHexDigit := by
    refine takeWhile_swap (by omega) ?_
    intro all d head
    have touching : length = more.length + 1 := by
      have := length_le_takeWhile all (prefix_append more old)
      omega
    obtain ⟨last, ends⟩ : ∃ last, (c :: mark :: more).getLast? = some last :=
      ⟨_, getLast?_eq_some_getLast (cons_ne_nil c _)⟩
    have joins : isNameChar last = true := by
      rw [getLast?_cons_cons] at ends
      rcases mem_cons.mp (mem_of_mem_getLast? ends) with rfl | member
      · rcases isMark with rfl | rfl <;> decide
      · exact isNameChar_of_isHexDigit (all last member)
    have other := (apart touching).head gentle head ends (.inl joins)
    cases hex : isHexDigit d with
    | false => rfl
    | true =>
      rw [isNameChar_of_isHexDigit hex] at other
      cases other
  rw [← found]
  simp only [hexadecimal, cons_append, drop_succ_cons, drop_zero, same]

theorem name_swap {c : Char} {more old new : Text} (named : isNameStart c = true) (gentle : Gentle new)
    (short : ((more ++ old).takeWhile isNameChar).length ≤ more.length)
    (apart : ((more ++ old).takeWhile isNameChar).length = more.length → Apart (c :: more) new) :
    (more ++ new).takeWhile isNameChar = (more ++ old).takeWhile isNameChar := by
  refine takeWhile_swap short ?_
  intro all d head
  have touching : ((more ++ old).takeWhile isNameChar).length = more.length :=
    Nat.le_antisymm short (length_le_takeWhile all (prefix_append more old))
  obtain ⟨last, ends⟩ : ∃ last, (c :: more).getLast? = some last := ⟨_, getLast?_eq_some_getLast (cons_ne_nil c _)⟩
  have joins : isNameChar last = true := by
    rcases mem_cons.mp (mem_of_mem_getLast? ends) with rfl | member
    · simp [isNameChar, named]
    · exact all last member
  exact (apart touching).head gentle head ends (.inl joins)

theorem read_swap_single (found : Lexeme.read c old = (lexeme, 0))
    (sound : lexeme = .gap ∨ ∃ kind, lexeme = .token kind) (gentle : Gentle new) (apart : Apart [c] new) :
    Lexeme.read c new = (lexeme, 0) := by
  have unslash : ∀ d ∈ new.head?, d ≠ '/' ∧ d ≠ '*' := fun d head =>
    ⟨(gentle.head head).2.2.2.2.1, (gentle.head head).2.2.2.2.2.1⟩
  have noLine : (c == '/' && new.head? == some '/') = false := by
    cases new with
    | nil => simp
    | cons d => simp [(unslash d (by simp)).1]
  have noBlock : (c == '/' && new.head? == some '*') = false := by
    cases new with
    | nil => simp
    | cons d => simp [(unslash d (by simp)).2]
  unfold Lexeme.read at found ⊢
  split at found
  next blank => rw [if_pos blank, ← found]
  next unblank =>
  rw [if_neg unblank, noLine, noBlock, if_neg Bool.false_ne_true, if_neg Bool.false_ne_true]
  split at found
  next line =>
    cases old with
    | nil => simp at line
    | cons =>
      simp only [head?_cons, Bool.and_eq_true, beq_iff_eq, Option.some.injEq] at line
      simp [line.2] at found
  next =>
  split at found
  next block => simp at found
  next =>
  split at found
  next hex =>
    simp only [hexadecimal] at found
    split at found <;> simp at found
  next =>
  split at found
  next number =>
    have digit : c.isDigit = true := by
      by_contra other
      simp only [Bool.not_eq_true] at other
      rw [other, Bool.false_or, Bool.and_eq_true, beq_iff_eq] at number
      obtain ⟨rfl, digitHead⟩ := number
      cases old with
      | nil => simp at digitHead
      | cons d =>
        have digit : d.isDigit = true := by simpa using digitHead
        simp [decimal, digits, fraction, digit, show Char.isDigit '.' = false from rfl] at found
    have joins := isNameChar_of_isDigit digit
    have noHex : (c == '0' && (new.head? == some 'x' || new.head? == some 'X')) = false := by
      cases new with
      | nil => simp
      | cons d =>
        have other : isNameChar d = false := apart.head gentle rfl rfl (.inl joins)
        have : d ≠ 'x' ∧ d ≠ 'X' := by constructor <;> (rintro rfl; exact absurd other (by decide))
        simp [this.1, this.2]
    have size : (decimal (c :: [] ++ old)).2 = 0 := by rw [cons_append, nil_append, found]
    have same : decimal (c :: new) = decimal (c :: old) :=
      @decimal_swap c [] old new gentle (Nat.le_of_eq size) (fun _ => apart)
    rw [if_neg (by simp [noHex]), if_pos (by simp [digit]), same, found]
  next unnumber =>
  have undigit : c.isDigit = false := by
    by_contra other
    exact unnumber (by simp [other])
  have noHex : (c == '0' && (new.head? == some 'x' || new.head? == some 'X')) = false := by
    have : c ≠ '0' := by
      rintro rfl
      cases undigit
    simp [this]
  rw [if_neg (by simp [noHex])]
  split at found
  next named =>
    have unpoint : (c == '.') = false := by
      rw [beq_eq_false_iff_ne]
      rintro rfl
      cases named
    have size : (old.takeWhile isNameChar).length = 0 := congrArg Prod.snd found
    have same : new.takeWhile isNameChar = old.takeWhile isNameChar :=
      @name_swap c [] old new named gentle (Nat.le_of_eq size) (fun _ => apart)
    rw [if_neg (by simp [undigit, unpoint]), if_pos named, same]
    exact found
  next unnamed =>
  split at found
  next kind pair => simp at found
  next unpaired =>
  have unpaired' : new.head?.bind (TokenKind.ofPair? c) = none := by
    cases new with
    | nil => rfl
    | cons d rest =>
      have head := gentle.head (head?_cons (a := d) (l := rest))
      rw [head?_cons, Option.bind_some]
      unfold TokenKind.ofPair?
      split <;> simp_all
  split at found
  next kind char =>
    have unpoint : (c == '.') = false := by
      rw [beq_eq_false_iff_ne]
      rintro rfl
      cases char
    rw [if_neg (by simp [undigit, unpoint]), if_neg unnamed, unpaired']
    exact found
  · obtain ⟨rfl, -⟩ := Prod.mk.inj found
    simp at sound

/-- A piece without a problem that ends within a text is read the same way when another text follows that
does not join it. -/
theorem read_swap (found : Lexeme.read c (more ++ old) = (lexeme, length))
    (sound : lexeme = .gap ∨ ∃ kind, lexeme = .token kind) (short : length ≤ more.length) (gentle : Gentle new)
    (apart : length = more.length → Apart (c :: more) new) : Lexeme.read c (more ++ new) = (lexeme, length) := by
  cases more with
  | nil =>
    obtain rfl : length = 0 := Nat.le_zero.mp short
    exact read_swap_single found sound gentle (apart rfl)
  | cons d more =>
    -- the first two characters decide how the piece is read
    unfold Lexeme.read at found ⊢
    rw [cons_append, head?_cons] at found ⊢
    split at found
    next blank => rw [if_pos blank, ← found]
    next unblank =>
    rw [if_neg unblank]
    split at found
    next line =>
      obtain ⟨rfl, rfl⟩ : c = '/' ∧ d = '/' := by simpa using line
      obtain ⟨rfl, size⟩ := Prod.mk.inj found
      rw [← cons_append] at size ⊢
      have same : ('/' :: more ++ new).takeWhile (· != '\n') = ('/' :: more ++ old).takeWhile (· != '\n') := by
        refine takeWhile_swap (by omega) ?_
        intro all e head
        have touching := length_le_takeWhile all (prefix_append ('/' :: more) old)
        have feed := (apart (by omega)).line (prefix_append ['/', '/'] more) e head
        simp [feed]
      rw [if_pos (by simp), same, size]
    next unline =>
    rw [if_neg unline]
    split at found
    next block =>
      rw [if_pos block]
      rw [drop_succ_cons, drop_zero] at found ⊢
      obtain ⟨⟨size, closed⟩, body⟩ : ∃ body, commentBody (more ++ old) = body := ⟨_, rfl⟩
      simp only [body] at found
      cases closed with
      | false =>
        obtain ⟨rfl, -⟩ := Prod.mk.inj found
        simp at sound
      | true =>
        obtain ⟨rfl, rfl⟩ := Prod.mk.inj found
        rw [commentBody_swap body (by simpa using short)]
    next unblock =>
    rw [if_neg unblock]
    split at found
    next hex =>
      rw [if_pos hex]
      have isMark : d = 'x' ∨ d = 'X' := by
        simp only [Bool.and_eq_true, Bool.or_eq_true, beq_iff_eq, Option.some.injEq] at hex
        exact hex.2
      rcases sound with rfl | ⟨_, rfl⟩
      · obtain bad | ⟨isToken, -⟩ := hexadecimal_token found
        · cases bad
        · cases isToken
      · exact hexadecimal_swap isMark gentle found short apart
    next unhex =>
    rw [if_neg unhex]
    split at found
    next number =>
      rw [if_pos number]
      rw [← cons_append, ← cons_append] at found ⊢
      have size := congrArg Prod.snd found
      rw [decimal_swap gentle (by rw [size]; exact short) (by rw [size]; exact apart), found]
    next unnumber =>
    rw [if_neg unnumber]
    split at found
    next named =>
      obtain ⟨rfl, rfl⟩ := Prod.mk.inj found
      rw [if_pos named]
      rw [← cons_append] at short apart ⊢
      rw [← cons_append, name_swap named gentle short apart]
    next unnamed =>
    rw [if_neg unnamed]
    exact found

theorem commentBody_length_le (text : Text) : (commentBody text).1 ≤ text.length := by
  fun_induction commentBody text with
  | case1 | case2 => simp
  | case3 _ _ _ _ _ found ih =>
    rw [found] at ih
    simpa using ih

theorem read_length_le (found : Lexeme.read c rest = (lexeme, length)) : length ≤ rest.length := by
  suffices within : (Lexeme.read c rest).2 ≤ rest.length by rwa [found] at within
  unfold Lexeme.read
  split
  · exact Nat.zero_le _
  next =>
  split
  · exact ( takeWhile_prefix _).length_le
  next =>
  split
  next block =>
    have body := commentBody_length_le (rest.drop 1)
    cases rest with
    | nil => simp at block
    | cons => simpa using body
  next =>
  split
  next hex =>
    cases rest with
    | nil => simp at hex
    | cons d rest =>
      have run := ( takeWhile_prefix (l := rest) isHexDigit).length_le
      simp only [hexadecimal, drop_succ_cons, drop_zero]
      split
      · simp
      · simpa using run
  next =>
  split
  · have run := (number_isPrefix (c :: rest)).length_le
    rw [(decimal_token (c :: rest)).1]
    simp only [length_cons] at run
    omega
  next =>
  split
  · exact ( takeWhile_prefix _).length_le
  next =>
  split
  next pair =>
    cases rest with
    | nil => simp at pair
    | cons => simp
  · split
    · exact Nat.zero_le _
    · exact Nat.zero_le _

/-! ## Pieces -/

/-- The pieces of a text in order: what each of them is, and how it is written. -/
def pieces : Text → List (Lexeme × Text)
  | [] => []
  | c :: rest =>
    let (lexeme, length) := Lexeme.read c rest
    (lexeme, c :: rest.take length) :: pieces (rest.drop length)
termination_by text => text.length
decreasing_by simp only [length_drop, length_cons]; omega

/-- The text that pieces make up. -/
def written (list : List (Lexeme × Text)) : Text := list.flatMap (·.2)

/-- The words among the pieces: the tokens without their places. -/
def wordsOf (list : List (Lexeme × Text)) : List (TokenKind × Text) :=
  list.filterMap fun piece =>
    match piece.1 with
    | .token kind => some (kind, piece.2)
    | _ => none

/-- A piece that gives no report. -/
def Sound (piece : Lexeme × Text) : Prop := piece.1 = .gap ∨ ∃ kind, piece.1 = .token kind

def Clean (text : Text) : Prop := ∀ piece ∈ pieces text, Sound piece

@[simp] theorem pieces_nil : pieces [] = [] := by rw [pieces]

theorem pieces_cons (found : Lexeme.read c rest = (lexeme, length)) :
    pieces (c :: rest) = (lexeme, c :: rest.take length) :: pieces (rest.drop length) := by
  rw [pieces, found]

@[simp] theorem written_nil : written [] = [] := rfl

@[simp] theorem written_cons (piece : Lexeme × Text) (list : List (Lexeme × Text)) :
    written (piece :: list) = piece.2 ++ written list := rfl

@[simp] theorem written_append (left right : List (Lexeme × Text)) :
    written (left ++ right) = written left ++ written right :=
  flatMap_append

@[simp] theorem wordsOf_append (left right : List (Lexeme × Text)) :
    wordsOf (left ++ right) = wordsOf left ++ wordsOf right :=
  filterMap_append

theorem written_pieces (text : Text) : written (pieces text) = text := by
  fun_induction pieces text with
  | case1 => rfl
  | case2 _ _ _ _ _ ih => simp [ih]

theorem written_ne_nil_of_mem_pieces {piece : Lexeme × Text} (member : piece ∈ pieces text) : piece.2 ≠ [] := by
  fun_induction pieces text with
  | case1 => cases member
  | case2 _ _ _ _ _ ih =>
    rcases mem_cons.mp member with rfl | member
    · simp
    · exact ih member

theorem pieces_written_of_append (split : pieces text = left ++ right) : pieces (written right) = right := by
  induction left generalizing text with
  | nil =>
    rw [nil_append] at split
    rw [← split, written_pieces]
  | cons _ _ ih =>
    cases text with
    | nil => simp at split
    | cons c rest =>
      obtain ⟨⟨_, _⟩, found⟩ : ∃ lexed, Lexeme.read c rest = lexed := ⟨_, rfl⟩
      rw [pieces_cons found, cons_append] at split
      exact ih (List.cons.inj split).2

/-- Pieces without a problem stay as they are when the text after them is replaced by one that does not
join the last of them. -/
theorem pieces_swap (split : pieces text = left ++ right) (sound : ∀ piece ∈ left, Sound piece)
    (gentle : Gentle new) (apart : ∀ last ∈ left.getLast?, Apart last.2 new) :
    pieces (written left ++ new) = left ++ pieces new := by
  induction left generalizing text with
  | nil => rfl
  | cons piece left ih =>
    cases text with
    | nil => simp at split
    | cons c rest =>
      obtain ⟨⟨lexeme, length⟩, found⟩ : ∃ lexed, Lexeme.read c rest = lexed := ⟨_, rfl⟩
      rw [pieces_cons found, cons_append] at split
      obtain ⟨rfl, tail⟩ := List.cons.inj split
      have after : rest.drop length = written left ++ written right := by rw [← written_append, ← tail, written_pieces]
      have within : rest = (rest.take length ++ written left) ++ written right := by
        rw [append_assoc, ← after, take_append_drop]
      have size : (rest.take length).length = length := length_take_of_le (read_length_le found)
      rw [within] at found
      have same : Lexeme.read c ((rest.take length ++ written left) ++ new) = (lexeme, length) := by
        refine read_swap found (sound _ mem_cons_self) ?_ gentle ?_
        · rw [length_append, size]
          exact Nat.le_add_right ..
        · -- nothing of the pieces is left, so this is the last of them
          intro touching
          rw [length_append, size] at touching
          have empty : written left = [] := length_eq_zero_iff.mp (by omega)
          obtain rfl : left = [] := by
            rw [empty, nil_append] at after
            cases left with
            | nil => rfl
            | cons next =>
              have member : next ∈ pieces (rest.drop length) := by
                rw [tail]
                exact mem_cons_self
              have nonempty := written_ne_nil_of_mem_pieces member
              rw [written_cons, append_eq_nil_iff] at empty
              exact absurd empty.1 nonempty
          rw [empty, append_nil]
          exact apart _ rfl
      have apart' : ∀ last ∈ left.getLast?, Apart last.2 new := by
        intro last ends
        refine apart last ?_
        cases left with
        | nil => cases ends
        | cons => rwa [getLast?_cons_cons]
      have tailSame := ih tail (fun piece member => sound piece (mem_cons_of_mem _ member)) apart'
      rw [written_cons, append_assoc, cons_append, ← append_assoc, pieces_cons same,
        append_assoc, take_left' size, drop_left' size, tailSame, cons_append]

theorem pieces_append {left right : Text} (clean : Clean left) (gentle : Gentle right)
    (apart : ∀ last ∈ (pieces left).getLast?, Apart last.2 right) :
    pieces (left ++ right) = pieces left ++ pieces right := by
  have swapped := pieces_swap (append_nil (pieces left)).symm clean gentle apart
  rwa [written_pieces] at swapped

theorem pieces_written_of_append_left {text : Text} {left right : List (Lexeme × Text)}
    (split : pieces text = left ++ right) (sound : ∀ piece ∈ left, Sound piece) : pieces (written left) = left := by
  have swapped := pieces_swap split sound Gentle.nil (fun last _ => Apart.nil last.2)
  rwa [pieces_nil, append_nil, append_nil] at swapped

/-! ## Delimiters -/

theorem pieces_cons_mark (delimits : isDelimiter c = true) (isMark : TokenKind.ofChar? c = some kind) (rest : Text) :
    pieces (c :: rest) = (.token kind, [c]) :: pieces rest := by
  have plain : isGapChar c = false ∧ c ≠ '/' ∧ c.isDigit = false ∧ c ≠ '.' ∧ isNameStart c = false ∧
      ∀ d, TokenKind.ofPair? c d = none := by
    rcases isDelimiter_cases delimits with
      rfl | rfl | rfl | rfl | rfl | rfl | rfl | rfl | rfl | rfl | rfl | rfl <;>
      first | cases isMark; done | exact ⟨rfl, by decide, rfl, by decide, rfl, fun _ => rfl⟩
  obtain ⟨unblank, unslash, undigit, unpoint, unnamed, unpaired⟩ := plain
  have unzero : c ≠ '0' := by
    rintro rfl
    cases undigit
  have unpaired : rest.head?.bind (TokenKind.ofPair? c) = none := by
    cases rest with
    | nil => rfl
    | cons d => exact unpaired d
  have found : Lexeme.read c rest = (.token kind, 0) := by
    simp [Lexeme.read, unblank, unslash, unzero, undigit, unpoint, unnamed, unpaired, isMark]
  rw [pieces_cons found, take_zero, drop_zero]

theorem pieces_cons_blank (blank : isGapChar c = true) (rest : Text) :
    pieces (c :: rest) = (.gap, [c]) :: pieces rest := by
  have found : Lexeme.read c rest = (.gap, 0) := by simp [Lexeme.read, blank]
  rw [pieces_cons found, take_zero, drop_zero]

theorem Apart.of_isDelimiter {piece : Text} (delimits : isDelimiter c = true) (outside : ¬ ['/', '/'] <+: piece) :
    Apart piece (c :: rest) where
  line := fun line => absurd line outside
  named := by
    intro d head named
    obtain rfl : c = d := by simpa using head
    have other := not_isNameChar_of_isDelimiter delimits
    simp [isNameChar, named] at other

theorem Gentle.of_isDelimiter (delimits : isDelimiter c = true) : Gentle (c :: rest) := by
  intro d head
  obtain rfl : c = d := by simpa using head
  exact .inl delimits

theorem not_comment_of_mem_pieces (member : (Lexeme.token kind, value) ∈ pieces text) : ¬ ['/', '/'] <+: value := by
  fun_induction pieces text with
  | case1 => cases member
  | case2 _ _ _ _ found ih =>
    rcases mem_cons.mp member with same | member
    · obtain ⟨rfl, rfl⟩ := Prod.mk.inj same
      obtain ⟨longest, outside⟩ := read_token found
      intro line
      exact outside (.inl (line.trans longest.start))
    · exact ih member

/-! ## Scans -/

def wordOf (token : Token) : TokenKind × Text := (token.kind, token.value.toList)

/-- The words among the pieces, placed after a text. -/
def wordsAt (file : String) (before : Text) : List (Lexeme × Text) → List Token
  | [] => []
  | (.token kind, value) :: list => tokenAfter file before kind value :: wordsAt file (before ++ value) list
  | (_, value) :: list => wordsAt file (before ++ value) list

theorem wordsAt_append (file : String) (before : Text) (left right : List (Lexeme × Text)) :
    wordsAt file before (left ++ right) = wordsAt file before left ++ wordsAt file (before ++ written left) right := by
  fun_induction wordsAt file before left with
  | case1 => simp
  | case2 _ _ _ _ ih => simp [wordsAt, ih]
  | case3 _ _ _ _ _ ih => simp [wordsAt, ih]

@[simp] theorem wordOf_tokenAfter (file : String) (before : Text) (kind : TokenKind) (value : Text) :
    wordOf (tokenAfter file before kind value) = (kind, value) := by
  simp [wordOf, tokenAfter]

theorem map_wordOf_wordsAt (file : String) (before : Text) (list : List (Lexeme × Text)) :
    (wordsAt file before list).map wordOf = wordsOf list := by
  fun_induction wordsAt file before list with
  | case1 => rfl
  | case2 _ _ _ _ ih => simp [wordsOf, ih]
  | case3 _ lexeme _ _ other ih =>
    rw [ih]
    cases lexeme with
    | token kind => exact absurd rfl (other kind)
    | _ => rfl

/-- A scan reports nothing just where each piece is sound, and its tokens are the words of the pieces. -/
theorem scan_pieces (file : String) (before text : Text) :
    ((Scan.ofTextFrom file (Place.start.after before) text).reports = [] ↔ Clean text) ∧
      (Clean text → (Scan.ofTextFrom file (Place.start.after before) text).tokens =
        wordsAt file before (pieces text) ++ [tokenAfter file (before ++ text) .endOfInput []]) := by
  fun_induction pieces text generalizing before with
  | case1 =>
    rw [Scan.ofTextFrom]
    simp [Clean, wordsAt, tokenAfter]
  | case2 c rest lexeme length found ih =>
    have whole : before ++ (c :: rest.take length) ++ rest.drop length = before ++ c :: rest := by simp
    obtain ⟨reports, tokens⟩ := ih (before ++ (c :: rest.take length))
    rw [whole] at tokens
    rw [Scan.ofTextFrom]
    simp only [found, ← Place.after_append]
    have cleanIff : Clean (c :: rest) ↔ Sound (lexeme, c :: rest.take length) ∧ Clean (rest.drop length) := by
      rw [Clean, pieces_cons found, forall_mem_cons, Clean]
    rw [cleanIff]
    cases lexeme with
    | gap =>
      have sound : Sound (Lexeme.gap, c :: rest.take length) := .inl rfl
      exact ⟨by simpa [Scan.add, sound] using reports, fun clean => by simpa [Scan.add, wordsAt] using tokens clean.2⟩
    | token kind =>
      have sound : Sound (Lexeme.token kind, c :: rest.take length) := .inr ⟨kind, rfl⟩
      refine ⟨by simpa [Scan.add, sound] using reports, fun clean => ?_⟩
      simpa [Scan.add, wordsAt, tokenAfter] using tokens clean.2
    | _ => simp [Scan.add, Sound]

theorem scan_eq_ok_iff {file : String} {text : Text} {tokens : List Token} :
    Token.scan file text = .ok tokens ↔
      Clean text ∧ tokens = wordsAt file [] (pieces text) ++ [tokenAfter file text .endOfInput []] := by
  obtain ⟨reports, found⟩ : ((Scan.ofText file text).reports = [] ↔ Clean text) ∧
      (Clean text → (Scan.ofText file text).tokens =
        wordsAt file [] (pieces text) ++ [tokenAfter file text .endOfInput []]) :=
    scan_pieces file [] text
  simp only [Token.scan]
  split
  next clean =>
    have clean := reports.mp (List.isEmpty_iff.mp clean)
    rw [found clean, Except.ok.injEq]
    exact ⟨fun same => ⟨clean, same.symm⟩, fun same => same.2.symm⟩
  next dirty =>
    have unclean : ¬ Clean text := fun clean => dirty (List.isEmpty_iff.mpr (reports.mpr clean))
    simp [unclean]

/-! ## One word of a text -/

theorem isToken_of_mem_pieces (member : (Lexeme.token kind, value) ∈ pieces text) : IsToken kind value := by
  fun_induction pieces text with
  | case1 => cases member
  | case2 _ _ _ _ found ih =>
    rcases mem_cons.mp member with same | member
    · obtain ⟨rfl, rfl⟩ := Prod.mk.inj same
      exact (read_token found).1.token
    · exact ih member

theorem wordsAt_split {file : String} {before : Text} {list : List (Lexeme × Text)}
    {front back : List Token} {word : Token} (split : wordsAt file before list = front ++ word :: back) :
    ∃ left value right, list = left ++ (.token word.kind, value) :: right ∧
      wordsAt file before left = front ∧ word = tokenAfter file (before ++ written left) word.kind value ∧
      wordsAt file (before ++ written left ++ value) right = back := by
  fun_induction wordsAt file before list generalizing front with
  | case1 => simp at split
  | case2 _ kind value list ih =>
    cases front with
    | nil =>
      obtain ⟨rfl, rfl⟩ := List.cons.inj split
      exact ⟨[], value, list, rfl, rfl, by simp [tokenAfter], by simp⟩
    | cons =>
      obtain ⟨rfl, tail⟩ := List.cons.inj split
      obtain ⟨left, value', right, rfl, rfl, shape, rfl⟩ := ih tail
      refine ⟨(.token kind, value) :: left, value', right, rfl, rfl, ?_, ?_⟩
      · rwa [written_cons, ← append_assoc]
      · rw [written_cons, ← append_assoc]
  | case3 _ lexeme value _ other ih =>
    obtain ⟨left, value', right, rfl, words, _, _⟩ := ih split
    refine ⟨(lexeme, value) :: left, value', right, rfl, ?_, ?_, ?_⟩
    · rw [← words]
      cases lexeme with
      | token kind => exact absurd rfl (other kind)
      | _ => rfl
    · rwa [written_cons, ← append_assoc]
    · rwa [written_cons, ← append_assoc]

theorem stands_of_pieces {file : String} {word : Token}
    (split : pieces text = left ++ (.token word.kind, value) :: right)
    (shape : word = tokenAfter file (written left) word.kind value) :
    Stands file text word (written left) value where
  within := by
    refine ⟨written right, ?_⟩
    rw [← written_pieces text, split]
    simp
  isToken := by
    have member : (Lexeme.token word.kind, value) ∈ pieces text := by rw [split]; simp
    exact isToken_of_mem_pieces member
  shape := shape

theorem pieces_insert {markKind : TokenKind} (clean : Clean text)
    (split : pieces text = left ++ (.token kind, value) :: right) (delimits : isDelimiter mark = true)
    (isMark : TokenKind.ofChar? mark = some markKind) :
    pieces (written left ++ value ++ mark :: written right) =
      left ++ (.token kind, value) :: (.token markKind, [mark]) :: right := by
  have split' : pieces text = (left ++ [(.token kind, value)]) ++ right := by rw [split]; simp
  have sound : ∀ piece ∈ left ++ [(.token kind, value)], Sound piece := fun piece member =>
    clean piece (split' ▸ mem_append_left _ member)
  have member : (Lexeme.token kind, value) ∈ pieces text := by rw [split]; simp
  have apart : ∀ last ∈ (left ++ [(Lexeme.token kind, value)]).getLast?,
      Apart last.2 (mark :: written right) := by
    intro last ends
    obtain rfl : (Lexeme.token kind, value) = last := by simpa using ends
    exact .of_isDelimiter delimits (not_comment_of_mem_pieces member)
  have swapped := pieces_swap split' sound (.of_isDelimiter delimits) apart
  rw [pieces_cons_mark delimits isMark, pieces_written_of_append split'] at swapped
  simpa using swapped

end SysYTools.Lexis
