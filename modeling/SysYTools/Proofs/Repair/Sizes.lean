import SysYTools.Proofs.Repair.Passing
import SysYTools.Proofs.Text.Search

/-!
The sizes of arrays in the text of a program. A number that stands in brackets behind a name is the literal
of the first dimension, and a literal that stands there without parentheses is found as such a number.
-/

namespace SysYTools

open List Lexis Lexeme

variable {c : Char} {closed digits name opened rest run sign text value : Text} {commas : Bool} {dims : List Expr}
  {expr : Expr} {kind : TokenKind} {level : Nat} {list : List Piece} {start stop : Span} {tokens : List Token}
  {words : List Word}

/-! ## Runs of digits -/

namespace Lexis

theorem not_isBlank_of_isDecimalDigit (digit : isDecimalDigit c = true) : isBlank c = false := by
  have apart : ∀ first ∈ decimalZeros, (32 < first ∧ first + 10 ≤ 0x85) ∨ (0xa0 < first ∧ first + 10 ≤ 0x1680) ∨
      (0x1680 < first ∧ first + 10 ≤ 0x2000) ∨ 0x3000 < first := by decide
  rw [isDecimalDigit, decimalDigit?, Option.isSome_map, find?_isSome] at digit
  obtain ⟨first, member, range⟩ := digit
  simp only [Bool.and_eq_true, decide_eq_true_eq] at range
  have place := apart first member
  simp only [isBlank, Bool.or_eq_false_iff, Bool.and_eq_false_iff, decide_eq_false_iff_not, beq_eq_false_iff_ne]
  omega

theorem IsToken.low (token : IsToken kind text) : ∀ c ∈ text, c.toNat < 128 := by
  intro c member
  rcases token.chars with symbol | chars
  · have all : ∀ entry ∈ symbols, ∀ c ∈ entry.1, c.toNat < 128 := by simp [symbols]
    exact all _ symbol c member
  · rcases chars c member with named | rfl | rfl | rfl
    · rw [isNameChar_iff] at named
      omega
    all_goals decide

theorem Fits.allDigits (fits : Fits list) (split : written list = run ++ text)
    (digits : ∀ c ∈ run, isDecimalDigit c = true) : AllDigits run := by
  induction list generalizing run with
  | nil =>
    obtain ⟨rfl, -⟩ := append_eq_nil_iff.mp split.symm
    simp [AllDigits]
  | cons piece _ ih =>
    cases run with
    | nil => simp [AllDigits]
    | cons d run =>
      obtain ⟨c, more, value, -⟩ := fits.read
      obtain ⟨_, text'⟩ := piece
      obtain rfl : text' = c :: more := value
      rw [written_cons] at split
      obtain ⟨rfl, -⟩ := List.cons.inj split
      have first := digits c mem_cons_self
      rcases fits.sound _ mem_cons_self with rfl | ⟨_, rfl⟩
      · cases fits.gap with
        | blank blank =>
          simp only [isGapChar, Bool.or_eq_true, beq_iff_eq] at blank
          rcases blank with ((rfl | rfl) | rfl) | rfl <;> cases first
        | line | block => cases first
      · have low := (fits.isToken mem_cons_self).low
        rcases append_eq_append_iff.mp split with ⟨others, isRun, after⟩ | ⟨others, isValue, -⟩
        · rw [isRun] at digits ⊢
          have rest := ih fits.tail after fun e member => digits e (mem_append_right _ member)
          intro e member
          rcases mem_append.mp member with member | member
          · exact (isDecimalDigit_iff_of_low (low e member)).mp (digits e (mem_append_left _ member))
          · exact rest e member
        · intro e member
          have inValue : e ∈ c :: more := by
            rw [show c :: more = c :: run ++ others from isValue]
            exact mem_append_left _ member
          exact (isDecimalDigit_iff_of_low (low e inValue)).mp (digits e member)

theorem pieces_digits {run rest : Text} (all : AllDigits run) (some : run ≠ [])
    (stop : ∀ c ∈ rest.head?, isNameChar c = false ∧ c ≠ '.') :
    ∃ lexeme, pieces (run ++ rest) = (lexeme, run) :: pieces rest ∧
      (lexeme = .token .integerLiteral ∨ ∃ problem, lexeme = .badInteger problem) ∧
      ((∀ c more, run ≠ '0' :: c :: more) → lexeme = .token .integerLiteral) := by
  obtain ⟨d, more, rfl⟩ := exists_cons_of_ne_nil some
  have digit := all d mem_cons_self
  have stopDigit : digits rest = [] := by
    cases rest with
    | nil => rfl
    | cons c =>
      refine digits_cons_of_not ?_
      cases found : c.isDigit with
      | false => rfl
      | true =>
        have other := (stop c rfl).1
        rw [isNameChar_of_isDigit found] at other
        cases other
  have whole : digits (d :: more ++ rest) = d :: more := by rw [digits_append all, stopDigit, append_nil]
  have part : fraction rest = [] := by
    cases rest with
    | nil => rfl
    | cons c =>
      unfold fraction
      split
      next shape => exact absurd (List.cons.inj shape).1 (stop c rfl).2
      · rfl
  have power : exponent rest = [] := by
    cases rest with
    | nil => rfl
    | cons c =>
      have unmarked : isExponentMark c = false := by
        have other := (stop c rfl).1
        cases found : isExponentMark c with
        | false => rfl
        | true =>
          simp only [isExponentMark, Bool.or_eq_true, beq_iff_eq] at found
          rcases found with rfl | rfl <;> cases other
      simp [exponent, unmarked]
  have unhex : ((more ++ rest).head? == Option.some 'x' || (more ++ rest).head? == Option.some 'X') = false := by
    cases more with
    | nil =>
      cases rest with
      | nil => rfl
      | cons c =>
        have other := (stop c rfl).1
        have letters : c ≠ 'x' ∧ c ≠ 'X' := by constructor <;> (rintro rfl; cases other)
        simp [letters]
    | cons e =>
      have digit := all e (by simp)
      have letters : e ≠ 'x' ∧ e ≠ 'X' := by constructor <;> (rintro rfl; cases digit)
      simp [letters]
  have number : Lexeme.read d (more ++ rest) = decimal (d :: more ++ rest) :=
    read_number (.inl digit) (by rw [unhex, Bool.and_false])
  simp only [decimal, whole, drop_left, part, length_nil, Nat.add_zero, power, append_nil] at number
  simp only [isEmpty_nil, Bool.not_true, Bool.or_self, Bool.false_eq_true, if_false] at number
  have found : ∀ lexeme, Lexeme.read d (more ++ rest) = (lexeme, (d :: more).length - 1) →
      pieces (d :: more ++ rest) = (lexeme, d :: more) :: pieces rest := by
    intro lexeme read
    rw [cons_append, pieces_cons read]
    simp
  split at number
  next bad =>
    refine ⟨_, found _ number, .inr ⟨_, rfl⟩, fun plain => ?_⟩
    simp only [Bool.and_eq_true, decide_eq_true_eq, head?_cons, beq_iff_eq, Option.some.injEq] at bad
    obtain ⟨⟨long, rfl⟩, -⟩ := bad
    cases more with
    | nil => simp at long
    | cons c more => exact absurd rfl (plain c more)
  · exact ⟨_, found _ number, .inl rfl, fun _ => rfl⟩

theorem Fits.wordsOf_number (fits : Fits list) {left right : Text} (split : written list = left ++ digits ++ right)
    (blank : ∀ c ∈ left ++ right, isBlank c = true) (some : digits ≠ [])
    (all : ∀ c ∈ digits, isDecimalDigit c = true) : wordsOf list = [(.integerLiteral, digits)] ∧ AllDigits digits := by
  obtain ⟨leftBlank, rightBlank⟩ := forall_mem_append.mp blank
  obtain ⟨d, more, rfl⟩ := exists_cons_of_ne_nil some
  rw [append_assoc, cons_append] at split
  obtain ⟨_, piece, rest, _, rfl, _, noWords, value, follows⟩ :=
    fits.blank_append split leftBlank (not_isBlank_of_isDecimalDigit (all d mem_cons_self))
  have whole : written (piece :: rest) = d :: more ++ right := by
    rw [written_cons, value, cons_append, ← follows]
    rfl
  have digits := fits.right.allDigits whole all
  have stop : ∀ c ∈ right.head?, isNameChar c = false ∧ c ≠ '.' := by
    intro c head
    have blank := rightBlank c (mem_of_mem_head? head)
    constructor
    · cases named : isNameChar c with
      | false => rfl
      | true =>
        rw [not_isBlank_of_isNameChar named] at blank
        cases blank
    · rintro rfl
      cases blank
  obtain ⟨lexeme, shape, kinds, -⟩ := pieces_digits digits (cons_ne_nil d more) stop
  have same := fits.right.pieces
  rw [whole, shape] at same
  obtain ⟨rfl, rfl⟩ := List.cons.inj same
  obtain rfl : lexeme = .token .integerLiteral := by
    rcases kinds with isLiteral | ⟨_, rfl⟩
    · exact isLiteral
    · rcases fits.sound _ (mem_append_right _ mem_cons_self) with bad | ⟨kind, bad⟩ <;> cases bad
  have noMore : wordsOf (Lexis.pieces right) = [] := fits.right.tail.wordsOf_blank (by rwa [written_pieces])
  refine ⟨?_, digits⟩
  rw [wordsOf_append, noWords, wordsOf_token, noMore]
  rfl

end Lexis

/-! ## Sizes in the grammar -/

mutual

/-- No element of an array stands in the expression. -/
def Expr.isUnindexed : Expr → Bool
  | .intLit _ _ | .floatLit _ _ => true
  | .lval _ indices _ => indices.isEmpty
  | .call _ arguments _ => Expr.allUnindexed arguments
  | .unary _ operand _ => operand.isUnindexed
  | .binary left _ right _ => left.isUnindexed && right.isUnindexed

def Expr.allUnindexed : List Expr → Bool
  | [] => true
  | first :: rest => first.isUnindexed && Expr.allUnindexed rest

end

namespace Grammar

theorem ExprAt.eq_intLit {token : Token} (derived : ExprAt level [token] expr)
    (isLiteral : token.kind = .integerLiteral) : expr = .intLit token.value token.span := by
  generalize shape : [token] = tokens at derived
  induction derived using ExprAt.rec (motive_2 := fun _ _ _ _ _ => True) (motive_3 := fun _ _ _ => True) with
  | tighter _ _ ih => exact ih shape
  | binary left =>
    obtain ⟨_, _, rfl, -⟩ := Parser.ExprAt_starts left
    simp at shape
  | unary found =>
    obtain ⟨rfl, -⟩ := List.cons.inj shape
    rw [isLiteral] at found
    cases found
  | intLit =>
    obtain ⟨rfl, -⟩ := List.cons.inj shape
    rfl
  | floatLit isFloat =>
    obtain ⟨rfl, -⟩ := List.cons.inj shape
    rw [isLiteral] at isFloat
    cases isFloat
  | lval named =>
    obtain ⟨rfl, -⟩ := List.cons.inj shape
    rw [isLiteral] at named
    cases named
  | callNone | call | paren => simp at shape
  | _ => trivial

theorem nest_tail (nest : Nest commas ((kind, value) :: words)) (isPlain : kind.isPlain = true) :
    Nest commas words := by
  generalize shape : (kind, value) :: words = all at nest
  cases nest with
  | nil => cases shape
  | plain _ nest =>
    cases shape
    exact nest
  | comma =>
    cases shape
    cases isPlain
  | group encloses =>
    cases shape
    cases encloses <;> cases isPlain

theorem not_nest_closing : ¬ Nest commas ((.rightBracket, value) :: words) := by
  intro nest
  generalize shape : (TokenKind.rightBracket, value) :: words = all at nest
  cases nest with
  | nil => cases shape
  | plain isPlain =>
    cases shape
    cases isPlain
  | comma => cases shape
  | group encloses =>
    cases shape
    cases encloses

theorem Indices.size
    (derived : Indices start tokens dims stop) (isWords : tokens.map wordOf =
      (.leftBracket, opened) :: (.integerLiteral, digits) :: (.rightBracket, closed) :: words) :
    ∃ span start' more further, dims = .intLit (String.ofList digits) span :: further ∧
      Indices start' more further stop ∧ more.map wordOf = words := by
  cases derived with
  | nil => cases isWords
  | @cons _ _ opening closing inside more index indices opens derived closes others =>
    rw [cons_append, map_cons, map_append, map_cons] at isWords
    obtain ⟨-, isRest⟩ := List.cons.inj isWords
    obtain ⟨first, rest, rfl, -⟩ := Parser.ExprAt_starts derived
    obtain ⟨isFirst, isRest⟩ := List.cons.inj isRest
    cases rest with
    | nil =>
      obtain ⟨-, isMore⟩ := List.cons.inj isRest
      obtain ⟨isLiteral, isDigits⟩ := Prod.mk.inj isFirst
      refine ⟨first.span, closing.span, more, indices, ?_, others, isMore⟩
      rw [derived.eq_intLit isLiteral, ← isDigits, String.ofList_toList]
    | cons =>
      obtain ⟨isSecond, -⟩ := List.cons.inj isRest
      have nest := derived.nest
      rw [map_cons, map_cons, isFirst, isSecond] at nest
      exact absurd (nest_tail nest rfl) not_nest_closing

theorem ExprAt.literal {written : String} {span : Span} (derived : ExprAt level tokens (.intLit written span)) :
    (∃ token, tokens = [token] ∧ token.kind = .integerLiteral ∧ token.value = written) ∨
      ∀ outer, outer = TokenKind.leftBracket ∨ outer = .leftParen → ∃ kind, (kind = .leftBracket ∨ kind = .leftParen) ∧
          [kind, .leftParen, .integerLiteral, .rightParen] <:+: outer :: tokens.map (·.kind) := by
  generalize shape : Expr.intLit written span = expr at derived
  induction derived using ExprAt.rec (motive_2 := fun _ _ _ _ _ => True) (motive_3 := fun _ _ _ => True) with
  | tighter _ _ ih => exact ih shape
  | @intLit token isLiteral =>
    obtain ⟨rfl, -⟩ := Expr.intLit.inj shape
    exact .inl ⟨token, rfl, isLiteral, rfl⟩
  | @paren opening closing tokens expr opens _ closes ih =>
    right
    intro outer isOuter
    rcases ih shape with ⟨_, rfl, isLiteral, -⟩ | deeper
    · refine ⟨outer, isOuter, ?_⟩
      simp [opens, isLiteral, closes]
    · obtain ⟨kind, isKind, within⟩ := deeper .leftParen (.inr rfl)
      refine ⟨kind, isKind, within.trans ?_⟩
      refine ⟨[outer], [closing.kind], ?_⟩
      simp [opens]
  | binary | unary | floatLit | lval | callNone | call => cases shape
  | _ => trivial

theorem ExprAt.unbracketed (derived : ExprAt level tokens expr) :
    expr.isUnindexed = true → ∀ token ∈ tokens, token.kind ≠ .rightBracket := by
  induction derived using ExprAt.rec
    (motive_2 := fun _ tokens indices _ _ => indices.isEmpty = true → tokens = [])
    (motive_3 := fun tokens list _ => Expr.allUnindexed list = true →
      ∀ token ∈ tokens, token.kind ≠ .rightBracket) with
  | tighter _ _ ih => exact ih
  | binary _ found _ leftHypothesis rightHypothesis =>
    intro unindexed
    simp only [Expr.isUnindexed, Bool.and_eq_true] at unindexed
    refine forall_mem_append.mpr ⟨leftHypothesis unindexed.1, forall_mem_cons.mpr ⟨?_, rightHypothesis unindexed.2⟩⟩
    intro closes
    rw [closes] at found
    cases found
  | unary found _ ih =>
    intro unindexed
    refine forall_mem_cons.mpr ⟨?_, ih unindexed⟩
    intro closes
    rw [closes] at found
    cases found
  | intLit isLiteral => simp [isLiteral]
  | floatLit isLiteral => simp [isLiteral]
  | lval named _ ih =>
    intro unindexed
    rw [ih unindexed]
    simp [named]
  | callNone named opens closes => simp [named, opens, closes]
  | call named opens _ closes ih =>
    intro unindexed
    have inside := ih unindexed
    simp only [cons_append, forall_mem_cons, forall_mem_append]
    exact ⟨by simp [named], by simp [opens], inside, by simp [closes]⟩
  | paren opens _ closes ih =>
    intro unindexed
    have inside := ih unindexed
    simp only [cons_append, forall_mem_cons, forall_mem_append]
    exact ⟨by simp [opens], inside, by simp [closes]⟩
  | nil => rfl
  | cons _ _ _ _ _ _ empty => cases empty
  | single _ ih unindexed token member =>
    simp only [Expr.allUnindexed, Bool.and_true] at unindexed
    exact ih unindexed token member
  | more _ separates _ ih restHypothesis unindexed token member =>
    simp only [Expr.allUnindexed, Bool.and_eq_true] at unindexed
    rcases mem_append.mp member with member | member
    · exact ih unindexed.1 token member
    rcases mem_cons.mp member with rfl | member
    · simp [separates]
    · exact restHypothesis unindexed.2 token member

end Grammar

/-! ## Reading a size -/

namespace Repair

open Text Grammar

theorem readSize_append {outer left digits right tail : Text}
    (blank : ∀ c ∈ outer ++ (left ++ right), isBlank c = true) (nonempty : digits ≠ [])
    (decimal : ∀ c ∈ digits, isDecimalDigit c = true) :
    readSize (outer ++ '[' :: (left ++ (digits ++ (right ++ ']' :: tail)))) = some (digits, tail) := by
  obtain ⟨outerBlank, innerBlank⟩ := forall_mem_append.mp blank
  obtain ⟨leftBlank, rightBlank⟩ := forall_mem_append.mp innerBlank
  have unblank : ∀ c ∈ (digits ++ (right ++ ']' :: tail)).head?, isBlank c = false := by
    obtain ⟨d, _, rfl⟩ := exists_cons_of_ne_nil nonempty
    rintro c head
    obtain rfl : d = c := by simpa using head
    exact not_isBlank_of_isDecimalDigit (decimal d mem_cons_self)
  have stop : ∀ c ∈ (right ++ ']' :: tail).head?, isDecimalDigit c = false := by
    intro c head
    cases found : isDecimalDigit c with
    | false => rfl
    | true =>
      have other := not_isBlank_of_isDecimalDigit found
      cases right with
      | nil =>
        obtain rfl : ']' = c := by simpa using head
        cases found
      | cons d =>
        obtain rfl : d = c := by simpa using head
        rw [rightBlank d mem_cons_self] at other
        cases other
  obtain ⟨taken, rest⟩ := span_append decimal stop
  have read : readDigits (digits ++ (right ++ ']' :: tail)) = some (digits, right ++ ']' :: tail) := by
    simp only [readDigits, taken, rest]
    rw [if_neg (by simpa using nonempty)]
  have opens := @readMark_append '[' outer (left ++ (digits ++ (right ++ ']' :: tail))) outerBlank rfl
  have closes := @readMark_append ']' right tail rightBlank rfl
  simp only [readSize, opens, Option.bind_eq_bind, Option.bind_some, stripLeft_append leftBlank unblank, read,
    closes, Option.pure_def]

theorem skipBrackets_append {inside : Text} (rest : Text) (blank : ∀ c ∈ run, isBlank c = true)
    (unclosed : ']' ∉ inside) : skipBrackets (run ++ '[' :: (inside ++ ']' :: rest)) = skipBrackets rest := by
  have opens : stripLeft (run ++ '[' :: (inside ++ ']' :: rest)) = '[' :: (inside ++ ']' :: rest) :=
    stripLeft_append blank (by rintro c ⟨⟩; rfl)
  have closes := dropWhile_until rest unclosed
  rw [skipBrackets]
  split
  next inside' opens' =>
    obtain rfl : inside ++ ']' :: rest = inside' := (List.cons.inj (opens.symm.trans opens')).2
    split
    next c rest' closes' =>
      obtain rfl : rest = rest' := (List.cons.inj (closes.symm.trans closes')).2
      rfl
    next closes' =>
      rw [closes] at closes'
      cases closes'
  next other => exact absurd opens (other _)

theorem skipBrackets_stop (blank : ∀ d ∈ run, isBlank d = true) (unblank : isBlank c = false) (other : c ≠ '[') :
    skipBrackets (run ++ c :: rest) = run ++ c :: rest := by
  have strips : stripLeft (run ++ c :: rest) = c :: rest := stripLeft_append blank (by rintro d ⟨⟩; exact unblank)
  rw [skipBrackets]
  split
  next inside opens => exact absurd (List.cons.inj (strips.symm.trans opens)).1 other
  · rfl

theorem bare_of_indices (derived : Indices start tokens dims stop)
    (unbroken : Unbroken ((.token .rightBracket, value) :: list))
    (isWords : wordsOf list = tokens.map wordOf ++ (.assign, sign) :: words) : Bare list := by
  cases derived with
  | nil => exact unbroken.1 (.assign, sign) (by rw [isWords]; rfl) rfl
  | @cons _ _ opening _ _ _ _ _ opens _ _ _ =>
    refine unbroken.1 (wordOf opening) (by rw [isWords]; rfl) ?_
    rw [wordOf, opens]
    rfl

theorem skipBrackets_indices (derived : Indices start tokens dims stop)
    (unindexed : ∀ dim ∈ dims, dim.isUnindexed = true) (fits : Fits list) (quiet : Quiet list) (bare : Bare list)
    (unbroken : Unbroken list) (isWords : wordsOf list = tokens.map wordOf ++ (.assign, sign) :: words) :
    ∃ run rest, skipBrackets (written list) = run ++ '=' :: written rest ∧ (∀ c ∈ run, isBlank c = true) ∧
      wordsOf rest = words ∧ Fits rest ∧ ∀ next ∈ words.head?, next.1 = .leftBrace → Bare rest := by
  induction derived using Indices.rec (motive_1 := fun _ _ _ _ => True) (motive_3 := fun _ _ _ => True)
    generalizing list with
  | nil =>
    obtain ⟨gaps, rest, rfl, noWords, isRest⟩ := wordsOf_eq_cons isWords
    obtain rfl : sign = ['='] := (fits.isToken (mem_append_right _ mem_cons_self)).sign rfl
    have blank := bare.blank fits.left.sound noWords
    refine ⟨written gaps, rest, ?_, blank, isRest, fits.right.tail, ?_⟩
    · rw [written_append, written_cons]
      exact skipBrackets_stop blank rfl (by decide)
    · intro next head isBrace
      exact unbroken.right.1 next (by rwa [isRest]) (by rw [isBrace]; rfl)
  | @cons _ _ opening closing inside more index indices opens derived closes others _ ih =>
    obtain ⟨unindexedFirst, unindexedRest⟩ := forall_mem_cons.mp unindexed
    have unclosed := derived.unbracketed unindexedFirst
    rw [cons_append, map_cons, map_append, map_cons, cons_append, append_assoc, cons_append, wordOf, opens] at isWords
    obtain ⟨gaps, list, rfl, noWords, isRest⟩ := wordsOf_eq_cons isWords
    obtain ⟨inner, list, rfl, isInner, isRest⟩ := wordsOf_eq_append isRest
    rw [wordOf, closes] at isRest
    obtain ⟨gaps', list, rfl, noWords', isRest⟩ := wordsOf_eq_cons isRest
    have opened := (fits.isToken (mem_append_right _ mem_cons_self)).sign rfl
    have closed := (@Fits.isToken _ fits .rightBracket closing.value.toList (by simp)).sign rfl
    have blank := bare.blank fits.left.sound noWords
    have first : ']' ∉ written (inner ++ gaps') := by
      intro member
      obtain ⟨piece, isPiece, within⟩ := mem_flatMap.mp member
      have inList : piece ∈ gaps ++ (Lexeme.token .leftBracket, opening.value.toList) ::
          (inner ++ (gaps' ++ (Lexeme.token .rightBracket, closing.value.toList) :: list)) := by
        rcases mem_append.mp isPiece with inInner | inGaps
        · simp [inInner]
        · simp [inGaps]
      obtain ⟨_, rfl, kindOf⟩ := fits.eq_sign quiet inList within rfl
      cases kindOf
      have word : (TokenKind.rightBracket, [']']) ∈ wordsOf (inner ++ gaps') := mem_filterMap.mpr ⟨_, isPiece, rfl⟩
      rw [wordsOf_append, noWords', append_nil, isInner] at word
      obtain ⟨token, isToken, same⟩ := mem_map.mp word
      exact unclosed token isToken (congrArg Prod.fst same)
    have bare' := bare_of_indices others unbroken.right.2.right.right isRest
    have split : written (gaps ++ (Lexeme.token .leftBracket, opening.value.toList) ::
        (inner ++ (gaps' ++ (Lexeme.token .rightBracket, closing.value.toList) :: list))) =
        written gaps ++ '[' :: (written (inner ++ gaps') ++ ']' :: written list) := by
      simp only [written_append, written_cons, opened, closed, TokenKind.signChar, append_assoc, singleton_append]
    rw [split, skipBrackets_append _ blank first]
    exact ih unindexedRest fits.right.tail.right.right.tail quiet.right.tail.right.right.tail bare'
      unbroken.right.2.right.right.2 isRest
  | _ => trivial

theorem exists_readArrayHead (fits : Fits ((.token .identifier, name) :: list))
    (quiet : Quiet list) (unbroken : Unbroken ((.token .identifier, name) :: list))
    (derived : Indices start tokens dims stop) (unindexed : ∀ dim ∈ dims, dim.isUnindexed = true) {brace : Text}
    (isWords : wordsOf list = (.leftBracket, opened) :: (.integerLiteral, digits) ::
      (.rightBracket, closed) :: (tokens.map wordOf ++ (.assign, sign) :: (.leftBrace, brace) :: words))
    (all : AllDigits digits) : ∃ read, readArrayHead (name ++ written list) = some read := by
  have form : IsWord name := (fits.isToken mem_cons_self).word_of_kind (.inl rfl)
  have unjoined := fits.parted_word form
  have bare : Bare list := unbroken.1 (.leftBracket, opened) (by rw [isWords]; rfl) rfl
  obtain ⟨gaps, list, rfl, noWords, isRest⟩ := wordsOf_eq_cons isWords
  have bareSize : Bare list := unbroken.2.right.1 (.integerLiteral, digits) (by rw [isRest]; rfl) rfl
  obtain ⟨gapsLeft, list, rfl, noWordsLeft, isRest⟩ := wordsOf_eq_cons isRest
  have bareClosing : Bare list := unbroken.2.right.2.right.1 (.rightBracket, closed) (by rw [isRest]; rfl) rfl
  obtain ⟨gapsRight, list, rfl, noWordsRight, isRest⟩ := wordsOf_eq_cons isRest
  have blank := bare.blank fits.tail.left.sound noWords
  have blankLeft := bareSize.blank fits.tail.right.tail.left.sound noWordsLeft
  have blankRight := bareClosing.blank fits.tail.right.tail.right.tail.left.sound noWordsRight
  -- the tail goes on to the equals sign and the brace
  have unbrokenTail := unbroken.2.right.2.right.2.right
  have fitsTail := fits.tail.right.tail.right.tail.right.tail
  have quietTail := quiet.right.tail.right.tail.right.tail
  obtain ⟨run, rest, skipped, blankRun, isRest, fitsRest, bareBrace⟩ := skipBrackets_indices derived unindexed
    fitsTail quietTail (bare_of_indices derived unbrokenTail isRest) unbrokenTail.2 isRest
  have bareRest := bareBrace (.leftBrace, brace) rfl rfl
  obtain ⟨gapsBrace, rest, rfl, noWordsBrace, -⟩ := wordsOf_eq_cons isRest
  have blankBrace := bareRest.blank fitsRest.left.sound noWordsBrace
  have isOpened := (@Fits.isToken _ fits .leftBracket opened (by simp)).sign rfl
  have isClosed := (@Fits.isToken _ fits .rightBracket closed (by simp)).sign rfl
  have isBrace := (@Fits.isToken _ fitsRest .leftBrace brace (by simp)).sign rfl
  have nonempty : digits ≠ [] := (@Fits.isToken _ fits .integerLiteral digits (by simp)).ne_nil
  have sized := @readSize_append (written gaps) (written gapsLeft) digits (written gapsRight) (written list)
    (by simp only [forall_mem_append]; exact ⟨blank, blankLeft, blankRight⟩) nonempty all.isDecimalDigit
  have signed := @readMark_append '=' run (written (gapsBrace ++ (Lexeme.token .leftBrace, brace) :: rest)) blankRun rfl
  have braced := @readMark_append '\x7b' (written gapsBrace) (written rest) blankBrace rfl
  simp only [written_append, written_cons, isOpened, isClosed, isBrace, TokenKind.signChar,
    singleton_append] at unjoined skipped signed ⊢
  simp only [readArrayHead, readName_append form unjoined, sized, Option.bind_eq_bind, Option.bind_some, skipped,
    signed, braced, Option.pure_def, Option.some.injEq, exists_eq']

/-- What is read where a definition starts: `behind` are the further dimensions, and `mid` goes up to the brace
of the list. -/
structure NamedHead (name : Text) (dims after : List Piece) (head : ArrayHead) (stop old middle : Text)
    (behind mid rest : List Piece) : Prop where
  named : head.name = name
  sized : wordsOf dims =
    (.leftBracket, ['[']) :: (.integerLiteral, head.digits) :: (.rightBracket, [']']) :: wordsOf behind
  digits : AllDigits head.digits
  isBehind : behind <:+ dims
  isAfter : after = mid ++ rest
  opening : wordsOf mid = [(.assign, ['=']), (.leftBrace, ['\x7b'])]
  last : (Lexeme.token .leftBrace, ['\x7b']) ∈ mid.getLast?
  isStop : stop = written rest
  text : HeadText (old ++ middle ++ stop) head old middle stop
  whole : name ++ written (dims ++ mid) = old ++ middle
  further : head.furtherDims ++ middle = written (behind ++ mid)

theorem name_unique {name' outer : Text} (form : IsWord name) (stop : ∀ c ∈ rest.head?, isWordChar c = false)
    (word : ∀ c ∈ name', isWordChar c = true) (blank : ∀ c ∈ outer, isBlank c = true)
    (same : name ++ rest = name' ++ outer) : name' = name ∧ rest = outer := by
  rcases append_eq_append_iff.mp same with ⟨more, rfl, rfl⟩ | ⟨more, rfl, rfl⟩
  · cases more with
    | nil => simp
    | cons c =>
      have other := stop c rfl
      rw [word c (by simp)] at other
      cases other
  · cases more with
    | nil => simp
    | cons c =>
      have other := not_isBlank_of_isNameChar (form.chars c (by simp))
      rw [blank c (by simp)] at other
      cases other

theorem exists_namedHead {dims after : List Piece} (fits : Fits ((.token .identifier, name) :: (dims ++ after)))
    (quiet : Quiet (dims ++ after)) (nest : Nest true (wordsOf dims))
    (ends : ∀ word rest, wordsOf after = word :: rest → word.1.isSign = true ∧ word.1 ≠ .leftBracket)
    {head : ArrayHead} {stop : Text} (found : readArrayHead (name ++ written (dims ++ after)) = some (head, stop)) :
    ∃ old middle behind mid rest, NamedHead name dims after head stop old middle behind mid rest := by
  have form : IsWord name := (fits.isToken mem_cons_self).word_of_kind (.inl rfl)
  have nest' : Nest true (wordsOf ((.token .identifier, name) :: dims)) := .plain rfl nest
  have quiet' : Quiet ((.token .identifier, name) :: dims ++ after) := by
    intro piece member isGap
    rcases mem_cons.mp member with rfl | member
    · cases isGap
    · exact quiet piece member isGap
  have text : name ++ written (dims ++ after) = written ((.token .identifier, name) :: dims) ++ written after := by
    rw [written_append, written_cons, append_assoc]
  rw [text] at found
  obtain ⟨outer, left, right, _, sign, brace, before, inside, behind, mid, rest, head', place, isTail, isStop⟩ :=
    exists_headPlace fits quiet' (closes_of_nest nest') (not_assign_of_nest nest') ends (nil_append _).symm found
  obtain ⟨blank, -⟩ := forall_mem_append.mp head'.blank
  obtain ⟨outerBlank, innerBlank⟩ := forall_mem_append.mp blank
  -- the bracket of the size stands behind the name
  obtain ⟨gaps, rfl, isDims⟩ : ∃ gaps, before = (.token .identifier, name) :: gaps ∧
      dims = gaps ++ (.token .leftBracket, ['[']) :: (inside ++ (.token .rightBracket, [']']) :: behind) := by
    have list := place.list
    cases before with
    | nil =>
      obtain ⟨same, -⟩ := List.cons.inj list
      cases same
    | cons _ gaps =>
      obtain ⟨rfl, isDims⟩ := List.cons.inj list
      exact ⟨gaps, rfl, isDims⟩
  subst isDims
  have unjoined : ∀ c ∈ (written gaps).head?, isWordChar c = false := by
    intro c first
    refine fits.parted_word form c ?_
    cases shape : written gaps with
    | nil => simp [shape] at first
    | cons => simpa [shape] using first
  have isBefore : name ++ written gaps = head.name ++ outer := by
    have before := place.before
    rwa [written_cons, nil_append] at before
  obtain ⟨named, rfl⟩ := name_unique form unjoined head'.word outerBlank isBefore
  have fitsGaps : Fits gaps := fits.tail.left.left
  have fitsInside : Fits inside := fits.tail.left.right.tail.left
  have noWords := fitsGaps.wordsOf_blank outerBlank
  obtain ⟨number, allDigits⟩ := fitsInside.wordsOf_number place.inside innerBlank head'.some head'.digits
  have further : head.furtherDims ++ (sign ++ '=' :: (brace ++ ['\x7b'])) = written (behind ++ mid) := by
    have both : head.furtherDims ++ (sign ++ '=' :: (brace ++ ['\x7b'])) ++ stop = written (behind ++ mid) ++ stop := by
      have split := isTail
      rw [head'.further, head'.stop, place.after, isStop] at split
      rw [isStop]
      simpa using split
    exact append_cancel_right both
  refine ⟨head.name ++ written gaps ++ '[' :: (left ++ head.digits ++ right ++ ']' :: head.furtherDims),
    sign ++ '=' :: (brace ++ ['\x7b']), behind, mid, rest, ?_⟩
  refine { named, sized := ?_, digits := allDigits, isBehind := ?_, isAfter := place.after, opening := place.opening
           last := place.last, isStop, text := ?_, whole := ?_, further }
  · simp [noWords, number]
  · exact ⟨gaps ++ (.token .leftBracket, ['[']) :: (inside ++ [(.token .rightBracket, [']'])]), by simp⟩
  · have headText := head'.headText found
    rwa [headText.whole] at headText
  · have split := (head'.headText found).whole
    rw [← text, place.after, isStop, ← append_assoc, written_append, ← append_assoc] at split
    exact append_cancel_right split

end Repair

end SysYTools
