import SysYTools.Proofs.Token.Lexis

/-!
The reader of lexemes against the token grammar. For each form of token, what the reader takes is a token
of that form, and no token at the start of the text is longer. The forms exclude each other by their first
characters, except for integers and floats, which are read together.
-/

namespace SysYTools.Lexis

open List Lexeme

variable {c d : Char} {kind : TokenKind} {length : Nat} {part power rest run text whole : Text}
  {test : Char → Bool}

/-! ## Runs of characters of one class -/

theorem length_le_takeWhile (all : ∀ c ∈ run, test c = true) (start : run <+: text) :
    run.length ≤ (text.takeWhile test).length := by
  obtain ⟨_, rfl⟩ := start
  rw [takeWhile_append_of_pos all]
  simp

theorem takeWhile_all (test : Char → Bool) (text : Text) : ∀ c ∈ text.takeWhile test, test c = true :=
  fun _ member => mem_takeWhile_imp member

theorem takeWhile_run_cons (all : ∀ d ∈ run, test d = true) (stop : test c = false) :
    (run ++ c :: rest).takeWhile test = run := by
  rw [takeWhile_append_of_pos all, takeWhile_cons_of_neg (by simp [stop]), append_nil]

theorem allDigits_digits (text : Text) : AllDigits (digits text) := takeWhile_all _ text

theorem digits_isPrefix (text : Text) : digits text <+: text := takeWhile_prefix _

theorem digits_append (all : AllDigits run) : digits (run ++ rest) = run ++ digits rest := takeWhile_append_of_pos all

/-! ## Exponents and fractions -/

theorem digits_cons_of_not (other : c.isDigit = false) : digits (c :: rest) = [] := by simp [digits, other]

theorem exponent_isPrefix (text : Text) : exponent text <+: text := by
  cases text with
  | nil => simp [exponent]
  | cons _ rest =>
    simp only [exponent]
    split
    · simp
    · cases rest with
      | nil => simp
      | cons sign more =>
        dsimp only
        split
        · split
          · simp
          · simpa using digits_isPrefix more
        · split
          · simp
          · simpa using digits_isPrefix (sign :: more)

theorem exponent_isExponent (text : Text) : exponent text = [] ∨ IsExponent (exponent text) := by
  cases text with
  | nil => exact .inl rfl
  | cons mark rest =>
    simp only [exponent]
    split
    · exact .inl rfl
    next isMark =>
      have isMark : isExponentMark mark = true := by simpa using isMark
      cases rest with
      | nil => exact .inl rfl
      | cons sign more =>
        dsimp only
        split
        next signed =>
          have signed : sign = '+' ∨ sign = '-' := by simpa using signed
          split
          · exact .inl rfl
          next some => exact .inr (.signed isMark signed (by simpa using some) (allDigits_digits more))
        · split
          · exact .inl rfl
          next some => exact .inr (.plain isMark (by simpa using some) (allDigits_digits (sign :: more)))

theorem IsExponent.exists_mark (isExponent : IsExponent power) :
    ∃ mark rest, power = mark :: rest ∧ isExponentMark mark = true := by
  cases isExponent with
  | plain mark | signed mark => exact ⟨_, _, rfl, mark⟩

theorem IsExponent.digits_eq_nil (isExponent : IsExponent power) (more : Text) : digits (power ++ more) = [] := by
  obtain ⟨_, _, rfl, mark⟩ := isExponent.exists_mark
  exact digits_cons_of_not (not_isDigit_of_isExponentMark mark)

theorem length_le_exponent (isExponent : IsExponent power) (more : Text) :
    power.length ≤ (exponent (power ++ more)).length := by
  cases isExponent with
  | @plain mark run isMark some all =>
    obtain ⟨first, rest, rfl⟩ := exists_cons_of_ne_nil some
    have firstDigit : first.isDigit = true := all first (by simp)
    have unsigned : (first == '+' || first == '-') = false := by
      rw [Bool.eq_false_iff]
      intro signed
      simp only [Bool.or_eq_true, beq_iff_eq] at signed
      rcases signed with rfl | rfl <;> cases firstDigit
    have found : digits (first :: rest ++ more) = first :: rest ++ digits more := digits_append all
    simp only [cons_append] at found
    simp only [exponent, isMark, Bool.not_true, Bool.false_eq_true, ↓reduceIte, cons_append,
      unsigned, found, isEmpty_cons, length_cons, length_append]
    omega
  | @signed mark sign run isMark isSign some all =>
    have signed : (sign == '+' || sign == '-') = true := by simpa using isSign
    have found : digits (run ++ more) = run ++ digits more := digits_append all
    have nonempty : (run ++ digits more).isEmpty = false := by simp [some]
    simp only [exponent, isMark, Bool.not_true, Bool.false_eq_true, ↓reduceIte, cons_append,
      signed, found, nonempty, length_cons, length_append]
    omega

theorem fraction_isPrefix (text : Text) : fraction text <+: text := by
  unfold fraction
  split
  next rest => simpa using digits_isPrefix rest
  · simp

theorem fraction_eq (text : Text) : fraction text = [] ∨ ∃ part, AllDigits part ∧ fraction text = '.' :: part := by
  unfold fraction
  split
  next rest => exact .inr ⟨digits rest, allDigits_digits rest, rfl⟩
  · exact .inl rfl

/-! ## Decimal literals -/

def number (text : Text) : Text :=
  let whole := digits text
  let part := fraction (text.drop whole.length)
  whole ++ part ++ exponent (text.drop (whole.length + part.length))

private theorem drop_of_append {before after : Text} (split : before ++ after = text) :
    text.drop before.length = after := by
  rw [← split]
  exact drop_left

theorem number_isPrefix (text : Text) : number text <+: text := by
  obtain ⟨afterWhole, split⟩ := digits_isPrefix text
  obtain ⟨afterPart, splitPart⟩ := fraction_isPrefix afterWhole
  have shape : digits text ++ fraction afterWhole ++ afterPart = text := by rw [append_assoc, splitPart, split]
  have dropPart := drop_of_append shape
  rw [length_append] at dropPart
  simp only [number, drop_of_append split, dropPart]
  conv_rhs => rw [← shape]
  exact (prefix_append_right_inj _).mpr (exponent_isPrefix afterPart)

theorem length_le_number_of_point (more : Text) (wholeDigits : AllDigits whole) (partDigits : AllDigits part)
    (powerForm : power = [] ∨ IsExponent power) :
    (whole ++ ('.' :: part) ++ power).length ≤ (number (whole ++ ('.' :: part) ++ power ++ more)).length := by
  have foundWhole : digits (whole ++ ('.' :: part) ++ power ++ more) = whole := by
    simp only [append_assoc, cons_append]
    exact takeWhile_run_cons wholeDigits rfl
  have foundPart : fraction ('.' :: part ++ power ++ more) = '.' :: (part ++ digits (power ++ more)) := by
    simp only [cons_append, append_assoc, fraction]
    rw [digits_append partDigits]
  have afterWhole : (whole ++ ('.' :: part) ++ power ++ more).drop whole.length =
      '.' :: part ++ power ++ more := by
    simp only [append_assoc]
    exact drop_left
  simp only [number, foundWhole, afterWhole, foundPart]
  rcases powerForm with rfl | isExponent
  · simp only [append_nil, length_append, length_cons]
    omega
  · have longest := length_le_exponent isExponent more
    have afterPart : (whole ++ ('.' :: part) ++ power ++ more).drop
        (whole.length + ('.' :: part).length) = power ++ more := by
      rw [← length_append, append_assoc, drop_left]
    simp only [isExponent.digits_eq_nil, append_nil, afterPart, length_append]
    omega

theorem length_le_number_of_power (more : Text) (wholeDigits : AllDigits whole) (isExponent : IsExponent power) :
    (whole ++ power).length ≤ (number (whole ++ power ++ more)).length := by
  have noPoint : fraction (power ++ more) = [] := by
    obtain ⟨_, _, rfl, mark⟩ := isExponent.exists_mark
    unfold fraction
    split
    next same =>
      obtain ⟨rfl, -⟩ := List.cons.inj same
      cases mark
    · rfl
  have foundWhole : digits (whole ++ power ++ more) = whole := by
    rw [append_assoc, digits_append wholeDigits, isExponent.digits_eq_nil, append_nil]
  have afterWhole : (whole ++ power ++ more).drop whole.length = power ++ more := by rw [append_assoc, drop_left]
  have longest := length_le_exponent isExponent more
  simp only [number, foundWhole, afterWhole, noPoint, length_nil, Nat.add_zero, append_nil, length_append] at longest ⊢
  omega

theorem length_le_number_of_digits (all : AllDigits run) (start : run <+: text) :
    run.length ≤ (number text).length := by
  have longest : run.length ≤ (digits text).length := length_le_takeWhile all start
  simp only [number, length_append]
  omega

/-! ## First characters -/

theorem IsInteger.head (form : IsInteger (c :: rest)) : c.isDigit = true := by
  cases form with
  | decimal digit => exact digit
  | octal | hexadecimal => rfl

theorem IsInteger.ne_nil (form : IsInteger text) : text ≠ [] := by
  cases form <;> simp

theorem IsFloat.ne_nil (form : IsFloat text) : text ≠ [] := by
  cases form with
  | point => simp
  | power _ some => simp [some]

theorem IsFloat.head (form : IsFloat (c :: rest)) : c.isDigit = true ∨ c = '.' := by
  generalize shape : c :: rest = text at form
  cases form with
  | @point whole part power wholeDigits _ _ _ =>
    cases whole with
    | nil => exact .inr (List.cons.inj shape).1
    | cons first => exact .inl ((List.cons.inj shape).1 ▸ wholeDigits first (by simp))
  | @power whole power wholeDigits some _ =>
    obtain ⟨first, _, rfl⟩ := exists_cons_of_ne_nil some
    exact .inl ((List.cons.inj shape).1 ▸ wholeDigits first (by simp))

theorem IsFloat.digit_after_point (form : IsFloat ('.' :: rest)) : rest.head?.any Char.isDigit = true := by
  generalize shape : '.' :: rest = text at form
  cases form with
  | @point whole part power wholeDigits partDigits some _ =>
    cases whole with
    | nil =>
      obtain ⟨first, _, rfl⟩ := exists_cons_of_ne_nil (some.resolve_left (by simp))
      obtain rfl := (List.cons.inj shape).2
      simpa using partDigits first (by simp)
    | cons first =>
      have digit := wholeDigits first (by simp)
      rw [← (List.cons.inj shape).1] at digit
      cases digit
  | @power whole power wholeDigits some _ =>
    obtain ⟨first, _, rfl⟩ := exists_cons_of_ne_nil some
    have digit := wholeDigits first (by simp)
    rw [← (List.cons.inj shape).1] at digit
    cases digit

theorem IsFloat.stop (form : IsFloat text) :
    ∃ whole next after, text = whole ++ next :: after ∧ AllDigits whole ∧
      (next = '.' ∨ isExponentMark next = true) := by
  cases form with
  | @point whole part power wholeDigits _ _ _ => exact ⟨whole, '.', part ++ power, by simp, wholeDigits, .inl rfl⟩
  | @power whole power wholeDigits _ isExponent =>
    cases isExponent with
    | @plain mark digits marked _ _ => exact ⟨whole, mark, digits, rfl, wholeDigits, .inr marked⟩
    | @signed mark sign digits marked _ _ _ => exact ⟨whole, mark, sign :: digits, rfl, wholeDigits, .inr marked⟩

theorem IsFloat.not_allDigits (form : IsFloat text) : ¬ AllDigits text := by
  obtain ⟨_, next, _, rfl, -, isNext⟩ := form.stop
  intro all
  have digit := all next (by simp)
  rcases isNext with rfl | mark
  · cases digit
  · rw [not_isDigit_of_isExponentMark mark] at digit
    cases digit

theorem IsFloat.plain (form : IsFloat (c :: rest)) :
    (c == '0' && (rest.head? == some 'x' || rest.head? == some 'X')) = false := by
  obtain ⟨whole, next, _, split, digits, isNext⟩ := form.stop
  rw [Bool.eq_false_iff]
  simp only [ne_eq, Bool.and_eq_true, Bool.or_eq_true, beq_iff_eq]
  rintro ⟨rfl, mark⟩
  match whole, split, digits with
  | [], split, _ =>
    cases split
    rcases isNext with next | next <;> cases next
  | [_], split, _ =>
    cases split
    rcases mark with mark | mark <;> cases mark <;> rcases isNext with next | next <;> cases next
  | _ :: d :: _, split, digits =>
    cases split
    have digit := digits d (by simp)
    rcases mark with mark | mark <;> cases mark <;> cases digit

/-- A symbol starts with a character that starts no other token. -/
def isSymbolStart (c : Char) : Bool := !isNameStart c && !c.isDigit && c != '.'

theorem isSymbolStart_of_mem (member : (c :: rest, kind) ∈ symbols) : isSymbolStart c = true := by
  have all : ∀ entry ∈ symbols, entry.1.head?.all isSymbolStart = true := by decide
  simpa using all _ member

theorem symbol_shape (member : (text, kind) ∈ symbols) : (∃ c, text = [c]) ∨ ∃ c d, text = [c, d] := by
  have all : ∀ entry ∈ symbols, entry.1.length = 1 ∨ entry.1.length = 2 := by decide
  rcases all _ member with one | two
  · exact .inl (length_eq_one_iff.mp one)
  · exact .inr (length_eq_two.mp two)

theorem mem_symbols_of_ofPair? (found : TokenKind.ofPair? c d = some kind) : ([c, d], kind) ∈ symbols := by
  unfold TokenKind.ofPair? at found
  split at found <;> simp_all [symbols]

theorem mem_symbols_of_ofChar? (found : TokenKind.ofChar? c = some kind) : ([c], kind) ∈ symbols := by
  unfold TokenKind.ofChar? at found
  split at found <;> simp_all [symbols]

theorem ofPair?_of_mem_symbols (member : ([c, d], kind) ∈ symbols) : TokenKind.ofPair? c d = some kind := by
  have all : ∀ entry ∈ symbols, ∀ c d, entry.1 = [c, d] → TokenKind.ofPair? c d = some entry.2 := by
    simp [symbols, TokenKind.ofPair?]
  exact all _ member c d rfl

theorem IsToken.isWord (token : IsToken kind (c :: rest)) (start : isNameStart c = true) : IsWord (c :: rest) := by
  cases token with
  | word form => exact form
  | integer form =>
    rw [not_isNameStart_of_isDigit form.head] at start
    cases start
  | float form =>
    rcases form.head with digit | rfl
    · rw [not_isNameStart_of_isDigit digit] at start
      cases start
    · cases start
  | symbol member =>
    have symbolic := isSymbolStart_of_mem member
    simp [isSymbolStart, start] at symbolic

theorem IsToken.isNumber (token : IsToken kind (c :: rest)) (start : c.isDigit = true ∨ c = '.') :
    IsInteger (c :: rest) ∨ IsFloat (c :: rest) := by
  cases token with
  | word form =>
    cases form with
    | mk named =>
      rcases start with digit | rfl
      · rw [not_isNameStart_of_isDigit digit] at named
        cases named
      · cases named
  | integer form => exact .inl form
  | float form => exact .inr form
  | symbol member =>
    have symbolic := isSymbolStart_of_mem member
    rcases start with digit | rfl
    · simp [isSymbolStart, digit] at symbolic
    · cases symbolic

theorem IsToken.isSymbol (token : IsToken kind (c :: rest)) (unnamed : isNameStart c = false)
    (undigit : c.isDigit = false) (unpoint : (c == '.' && rest.head?.any Char.isDigit) = false) :
    (c :: rest, kind) ∈ symbols := by
  cases token with
  | word form =>
    cases form with
    | mk named => simp [named] at unnamed
  | integer form => simp [form.head] at undigit
  | float form =>
    rcases form.head with digit | rfl
    · simp [digit] at undigit
    · simp [form.digit_after_point] at unpoint
  | symbol member => exact member

theorem IsToken.ne_nil {kind : TokenKind} {text : Text} (token : IsToken kind text) : text ≠ [] := by
  cases token with
  | word form => cases form; simp
  | integer form => exact form.ne_nil
  | float form => exact form.ne_nil
  | symbol member => rcases symbol_shape member with ⟨c, rfl⟩ | ⟨c, d, rfl⟩ <;> simp

/-! ## The longest token of each form -/

theorem word_longest (start : isNameStart c = true) :
    Longest (.ofWord (String.ofList (c :: rest.takeWhile isNameChar))) (c :: rest.takeWhile isNameChar)
      (c :: rest) where
  token := .word (.mk start (takeWhile_all _ rest))
  start := (prefix_cons_inj c).mpr ( takeWhile_prefix _)
  most := by
    intro other longer token within
    obtain ⟨_, _, rfl⟩ := exists_cons_of_ne_nil token.ne_nil
    obtain ⟨rfl, tail⟩ := cons_prefix_cons.mp within
    cases token.isWord start with
    | mk _ all => simpa using length_le_takeWhile all tail

theorem hexadecimal_longest {mark : Char} (isMark : mark = 'x' ∨ mark = 'X') (some : rest.takeWhile isHexDigit ≠ []) :
    Longest .integerLiteral ('0' :: mark :: rest.takeWhile isHexDigit) ('0' :: mark :: rest) where
  token := .integer (.hexadecimal isMark some (takeWhile_all _ rest))
  start := by simpa using takeWhile_prefix _
  most := by
    have other : mark.isDigit = false := by rcases isMark with rfl | rfl <;> rfl
    -- A run of digits from here on is the zero alone, since the mark is no digit.
    have short : ∀ run : Text, AllDigits run → run <+: '0' :: mark :: rest → run.length ≤ 1 := by
      intro run all within
      have bound := length_le_takeWhile all within
      rw [takeWhile_cons_of_pos (by rfl), takeWhile_cons_of_neg (by simp [other])] at bound
      simpa using bound
    intro kind longer token within
    obtain ⟨_, _, rfl⟩ := exists_cons_of_ne_nil token.ne_nil
    obtain ⟨rfl, tail⟩ := cons_prefix_cons.mp within
    rcases token.isNumber (.inl rfl) with form | form
    · cases form with
      | decimal _ nonzero => exact absurd rfl nonzero
      | octal all =>
        have bound := short _ (by
          intro c member
          rcases mem_cons.mp member with rfl | member
          · rfl
          · exact isDigit_of_isOctalDigit (all c member)) within
        simp only [length_cons] at bound ⊢
        omega
      | hexadecimal _ _ all =>
        have bound := length_le_takeWhile all (cons_prefix_cons.mp tail).2
        simp only [length_cons]
        omega
    · obtain ⟨whole, _, _, shape, wholeDigits, isNext⟩ := form.stop
      rw [shape] at within
      have bound := short whole wholeDigits ((prefix_append _ _).trans within)
      match whole, bound with
      | [], _ =>
        obtain ⟨rfl, -⟩ := List.cons.inj shape
        rcases isNext with same | marked
        · cases same
        · cases marked
      | [zero], _ =>
        simp only [cons_append, nil_append, cons_prefix_cons] at within
        obtain ⟨-, rfl, -⟩ := within
        rcases isMark with rfl | rfl <;> rcases isNext with same | marked
        · cases same
        · cases marked
        · cases same
        · cases marked

theorem number_most (start : c.isDigit = true ∨ c = '.')
    (plain : (c == '0' && (rest.head? == some 'x' || rest.head? == some 'X')) = false) {other : TokenKind}
    {longer : Text} (token : IsToken other longer) (within : longer <+: c :: rest) :
    longer.length ≤ (number (c :: rest)).length := by
  obtain ⟨first, longer, rfl⟩ := exists_cons_of_ne_nil token.ne_nil
  obtain ⟨rfl, tail⟩ := cons_prefix_cons.mp within
  rcases token.isNumber start with form | form
  · cases form with
    | decimal digit _ all =>
      refine length_le_number_of_digits ?_ within
      intro d member
      rcases mem_cons.mp member with rfl | member
      · exact digit
      · exact all d member
    | octal all =>
      refine length_le_number_of_digits ?_ within
      intro d member
      rcases mem_cons.mp member with rfl | member
      · rfl
      · exact isDigit_of_isOctalDigit (all d member)
    | @hexadecimal mark digits isMark _ _ =>
      obtain ⟨more, rfl⟩ := tail
      rcases isMark with rfl | rfl <;> simp at plain
  · obtain ⟨more, shape⟩ := within
    rw [← shape]
    generalize first :: longer = text at form
    cases form with
    | point wholeDigits partDigits _ powerForm => exact length_le_number_of_point more wholeDigits partDigits powerForm
    | power wholeDigits _ isExponent => exact length_le_number_of_power more wholeDigits isExponent

private theorem isFloat_of_parts (wholeDigits : AllDigits whole)
    (partForm : part = [] ∨ ∃ digits, AllDigits digits ∧ part = '.' :: digits)
    (powerForm : power = [] ∨ IsExponent power) (some : whole ≠ [] ∨ ∃ d more, part = '.' :: d :: more)
    (marked : part ≠ [] ∨ power ≠ []) : IsFloat (whole ++ part ++ power) := by
  rcases partForm with rfl | ⟨_, partDigits, rfl⟩
  · have wholeSome : whole ≠ [] := some.resolve_right (by simp)
    have isExponent : IsExponent power := powerForm.resolve_left (marked.resolve_left (by simp))
    simpa using IsFloat.power wholeDigits wholeSome isExponent
  · refine .point wholeDigits partDigits ?_ powerForm
    refine some.imp_right ?_
    rintro ⟨_, _, same⟩
    simp [(List.cons.inj same).2]

theorem isInteger_of_digits (wholeDigits : AllDigits whole) (some : whole ≠ [])
    (good : (1 < whole.length && whole.head? == .some '0' && whole.any (fun c => c == '8' || c == '9')) = false) :
    IsInteger whole := by
  obtain ⟨first, rest, rfl⟩ := exists_cons_of_ne_nil some
  by_cases zero : first = '0'
  · subst zero
    refine .octal ?_
    intro c member
    have digit := wholeDigits c (by simp [member])
    have long : 1 < ('0' :: rest).length := by
      have := length_pos_of_mem member
      simpa using this
    simp only [long, decide_true, head?_cons, beq_self_eq_true, Bool.and_self, Bool.true_and, any_eq_false] at good
    have low := good c (by simp [member])
    simp only [Bool.or_eq_true, beq_iff_eq, not_or] at low
    simp [isOctalDigit, digit, low.1, low.2]
  · exact .decimal (wholeDigits first (by simp)) zero (fun c member => wholeDigits c (by simp [member]))

theorem number_isToken (start : c.isDigit = true ∨ c = '.' ∧ rest.head?.any Char.isDigit = true)
    (found : (decimal (c :: rest)).1 = .token kind) : IsToken kind (number (c :: rest)) := by
  have wholeDigits := allDigits_digits (c :: rest)
  have partForm := fraction_eq ((c :: rest).drop (digits (c :: rest)).length)
  have powerForm := exponent_isExponent ((c :: rest).drop ((digits (c :: rest)).length +
    (fraction ((c :: rest).drop (digits (c :: rest)).length)).length))
  have some : digits (c :: rest) ≠ [] ∨
      ∃ d more, fraction ((c :: rest).drop (digits (c :: rest)).length) = '.' :: d :: more := by
    rcases start with digit | ⟨rfl, next⟩
    · exact .inl (by simp [digits, digit])
    · cases rest with
      | nil => simp at next
      | cons d more =>
        have digit : d.isDigit = true := by simpa using next
        have none : digits ('.' :: d :: more) = [] := digits_cons_of_not rfl
        refine .inr ⟨d, digits more, ?_⟩
        rw [none, length_nil, drop_zero, fraction, digits, takeWhile_cons_of_pos digit, digits]
  simp only [decimal] at found
  simp only [number]
  generalize exponent _ = power at *
  generalize fraction _ = part at *
  split at found
  next marked =>
    cases found
    refine .float (isFloat_of_parts wholeDigits partForm powerForm some ?_)
    simpa using marked
  next unmarked =>
    simp only [Bool.or_eq_true, Bool.not_eq_true', isEmpty_eq_false_iff, not_or, ne_eq, not_not] at unmarked
    obtain ⟨rfl, rfl⟩ := unmarked
    split at found
    · cases found
    next good =>
      cases found
      simp only [append_nil]
      exact .integer (isInteger_of_digits wholeDigits (some.resolve_right (by simp)) (by simpa using good))

theorem number_longest (start : c.isDigit = true ∨ c = '.' ∧ rest.head?.any Char.isDigit = true)
    (plain : (c == '0' && (rest.head? == .some 'x' || rest.head? == .some 'X')) = false)
    (found : (decimal (c :: rest)).1 = .token kind) :
    Longest kind (number (c :: rest)) (c :: rest) where
  token := number_isToken start found
  start := number_isPrefix (c :: rest)
  most := number_most (start.imp_right And.left) plain

/-- The longest token where no word and no number starts has two characters if there is an operator of
two characters, and else one. -/
theorem symbol_longest (unnamed : isNameStart c = false) (undigit : c.isDigit = false)
    (unpoint : (c == '.' && rest.head?.any Char.isDigit) = false) {value : Text} (member : (value, kind) ∈ symbols)
    (start : value <+: c :: rest)
    (most : ∀ d other, ([c, d], other) ∈ symbols → rest.head? = some d → 2 ≤ value.length) :
    Longest kind value (c :: rest) where
  token := .symbol member
  start := start
  most := by
    intro other longer token within
    obtain ⟨first, longer, rfl⟩ := exists_cons_of_ne_nil token.ne_nil
    obtain ⟨rfl, tail⟩ := cons_prefix_cons.mp within
    have unpoint : (first == '.' && longer.head?.any Char.isDigit) = false := by
      cases longer with
      | nil => simp
      | cons =>
        obtain ⟨more, rfl⟩ := tail
        simpa using unpoint
    have known := token.isSymbol unnamed undigit unpoint
    rcases symbol_shape known with ⟨d, shape⟩ | ⟨d, e, shape⟩
    · have positive := length_pos_iff.mpr (IsToken.symbol member).ne_nil
      rw [shape, length_singleton]
      omega
    · obtain ⟨rfl, rfl⟩ := List.cons.inj shape
      obtain ⟨_, rfl⟩ := tail
      exact most e other known rfl

/-! ## The reader -/

theorem commentBody_closed (closed : commentBody text = (length, true)) :
    ∃ body more, text = body ++ ['*', '/'] ++ more ∧ length = body.length + 2 ∧ ¬ ['*', '/'] <:+: body := by
  induction text generalizing length with
  | nil => simp [commentBody] at closed
  | cons c rest ih =>
    by_cases first : c = '*' ∧ rest.head? = some '/'
    · obtain ⟨rfl, head⟩ := first
      obtain ⟨more, rfl⟩ := head?_eq_some_iff.mp head
      simp only [commentBody, Prod.mk.injEq, and_true] at closed
      exact ⟨[], more, rfl, by simp [← closed], by simp⟩
    · rw [commentBody.eq_3 c rest (by rintro more rfl rfl; exact first ⟨rfl, rfl⟩)] at closed
      obtain ⟨inner, isClosed⟩ : ∃ inner, commentBody rest = (inner, true) :=
        ⟨(commentBody rest).1, Prod.ext rfl (Prod.mk.inj closed).2⟩
      obtain ⟨body, more, rfl, rfl, clean⟩ := ih isClosed
      rw [isClosed] at closed
      refine ⟨c :: body, more, rfl, by simpa using (Prod.mk.inj closed).1.symm, ?_⟩
      intro inside
      rcases infix_cons_iff.mp inside with start | inside
      · obtain ⟨rfl, _, rfl⟩ := cons_prefix_cons.mp start
        exact first ⟨rfl, rfl⟩
      · exact clean inside

theorem hexadecimal_token {lexeme : Lexeme} (found : hexadecimal text = (lexeme, length)) :
    lexeme = .badInteger .hexWithoutDigits ∨
      lexeme = .token .integerLiteral ∧ (text.drop 1).takeWhile isHexDigit ≠ [] ∧
        length = ((text.drop 1).takeWhile isHexDigit).length + 1 := by
  simp only [hexadecimal] at found
  split at found
  · exact .inl (Prod.mk.inj found).1.symm
  next some =>
    obtain ⟨rfl, rfl⟩ := Prod.mk.inj found
    exact .inr ⟨rfl, by simpa using some, rfl⟩

theorem decimal_token (text : Text) :
    (decimal text).2 = (number text).length - 1 ∧
      ((∃ problem, (decimal text).1 = .badInteger problem) ∨ ∃ kind, (decimal text).1 = .token kind) := by
  refine ⟨rfl, ?_⟩
  simp only [decimal]
  split
  · exact .inr ⟨_, rfl⟩
  · split
    · exact .inl ⟨_, rfl⟩
    · exact .inr ⟨_, rfl⟩

theorem read_number (start : c.isDigit = true ∨ c = '.' ∧ rest.head?.any Char.isDigit = true)
    (plain : (c == '0' && (rest.head? == some 'x' || rest.head? == some 'X')) = false) :
    Lexeme.read c rest = decimal (c :: rest) := by
  have unblank : isGapChar c = false := by
    cases found : isGapChar c with
    | false => rfl
    | true =>
      simp only [isGapChar, Bool.or_eq_true, beq_iff_eq] at found
      rcases found with ((rfl | rfl) | rfl) | rfl <;> simp at start
  have unslash : (c == '/') = false := by
    rw [beq_eq_false_iff_ne]
    rintro rfl
    simp at start
  rw [Lexeme.read, if_neg (by simp [unblank]), if_neg (by simp [unslash]), if_neg (by simp [unslash]),
    if_neg (by simp [plain]), if_pos (by simpa using start)]

theorem read_gap (found : Lexeme.read c rest = (.gap, length)) : IsGap (c :: rest.take length) (rest.drop length) := by
  unfold Lexeme.read at found
  split at found
  next blank =>
    obtain ⟨-, rfl⟩ := Prod.mk.inj found
    exact .blank blank
  split at found
  next comment =>
    simp only [Bool.and_eq_true, beq_iff_eq] at comment
    obtain ⟨rfl, slash⟩ := comment
    obtain ⟨body, rfl⟩ := head?_eq_some_iff.mp slash
    obtain ⟨-, rfl⟩ := Prod.mk.inj found
    have rests := drop_of_append (takeWhile_append_dropWhile (p := (· != '\n')) (l := '/' :: body))
    rw [← prefix_iff_eq_take.mp ( takeWhile_prefix _), rests,
      takeWhile_cons_of_pos (by rfl), dropWhile_cons_of_pos (by rfl)]
    refine .line (fun member => by simpa using takeWhile_all _ _ _ member) ?_
    cases after : body.dropWhile (· != '\n') with
    | nil => exact .inl rfl
    | cons =>
      have stop := head_dropWhile_not (· != '\n') (l := body) (by simp [after])
      simp only [after, head_cons, bne_eq_false_iff_eq] at stop
      exact .inr (by simp [stop])
  split at found
  next comment =>
    simp only [Bool.and_eq_true, beq_iff_eq] at comment
    obtain ⟨rfl, star⟩ := comment
    obtain ⟨tail, rfl⟩ := head?_eq_some_iff.mp star
    simp only [drop_one, tail_cons] at found
    cases closed : (commentBody tail).2 with
    | false => simp [closed] at found
    | true =>
      obtain ⟨body, _, shape, count, clean⟩ := commentBody_closed (Prod.ext rfl closed)
      simp only [closed, ↓reduceIte, Prod.mk.injEq, true_and, count] at found
      subst shape found
      have size : body.length + 2 = (body ++ ['*', '/']).length := by simp
      rw [take_succ_cons, drop_succ_cons, size, take_left, drop_left]
      exact .block clean
  split at found
  · rcases hexadecimal_token found with bad | ⟨token, -⟩
    · cases bad
    · cases token
  split at found
  · rcases (decimal_token (c :: rest)).2 with ⟨_, bad⟩ | ⟨_, token⟩
    · rw [found] at bad
      cases bad
    · rw [found] at token
      cases token
  split at found
  · cases found
  split at found
  · cases found
  split at found
  · cases found
  · cases found

/-- What the reader takes for a token is the longest one, and no comment starts there. -/
theorem read_token (found : Lexeme.read c rest = (.token kind, length)) :
    Longest kind (c :: rest.take length) (c :: rest) ∧ ¬ StartsComment (c :: rest) := by
  unfold Lexeme.read at found
  split at found
  · cases found
  split at found
  · cases found
  next noLine =>
  split at found
  · split at found
    split at found <;> cases found
  next noBlock =>
  have outside : ¬ StartsComment (c :: rest) := by
    rintro (⟨more, shape⟩ | ⟨more, shape⟩)
    · obtain ⟨rfl, rfl⟩ := List.cons.inj shape
      simp at noLine
    · obtain ⟨rfl, rfl⟩ := List.cons.inj shape
      simp at noBlock
  refine ⟨?_, outside⟩
  split at found
  next hex =>
    rcases hexadecimal_token found with bad | ⟨token, some, rfl⟩
    · cases bad
    · cases token
      simp only [Bool.and_eq_true, Bool.or_eq_true, beq_iff_eq] at hex
      obtain ⟨rfl, marked⟩ := hex
      obtain ⟨mark, rest, rfl⟩ : ∃ mark more, rest = mark :: more := by
        cases rest with
        | nil => simp at marked
        | cons mark more => exact ⟨mark, more, rfl⟩
      rw [take_succ_cons, drop_one, tail_cons, ← prefix_iff_eq_take.mp ( takeWhile_prefix _)]
      exact hexadecimal_longest (by simpa using marked) some
  next plain =>
  have plain : (c == '0' && (rest.head? == .some 'x' || rest.head? == .some 'X')) = false := by simpa using plain
  split at found
  next start =>
    have start : c.isDigit = true ∨ c = '.' ∧ rest.head?.any Char.isDigit = true := by simpa using start
    have longest := number_longest start plain (by rw [found])
    have count : length = (number (c :: rest)).length - 1 := by rw [← (decimal_token (c :: rest)).1, found]
    have positive := length_pos_iff.mpr longest.token.ne_nil
    have taken : number (c :: rest) = c :: rest.take length := by
      rw [prefix_iff_eq_take.mp longest.start, count, ← take_succ_cons, Nat.sub_add_cancel positive]
    exact taken ▸ longest
  next unnumbered =>
  simp only [Bool.or_eq_true, not_or, Bool.not_eq_true] at unnumbered
  split at found
  next named =>
    cases found
    rw [← prefix_iff_eq_take.mp ( takeWhile_prefix _)]
    exact word_longest named
  next unnamed =>
  have unnamed : isNameStart c = false := by simpa using unnamed
  split at found
  next pair =>
    cases found
    obtain ⟨d, head, known⟩ := Option.bind_eq_some_iff.mp pair
    obtain ⟨_, rfl⟩ := head?_eq_some_iff.mp head
    exact symbol_longest unnamed unnumbered.1 unnumbered.2 (mem_symbols_of_ofPair? known) (by simp) (by simp)
  next single =>
    split at found
    next known =>
      cases found
      refine symbol_longest unnamed unnumbered.1 unnumbered.2 (mem_symbols_of_ofChar? known) (by simp) ?_
      intro d other member head
      rw [head, Option.bind_some, ofPair?_of_mem_symbols member] at single
      cases single
    · cases found

end SysYTools.Lexis
