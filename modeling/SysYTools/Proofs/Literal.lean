import SysYTools.Literal
import SysYTools.Proofs.Token.Lexis

/-!
The values of integer literals. Every text of the form has a value, except a decimal literal with more
digits than are converted.
-/

namespace SysYTools

open List Lexis

variable {c : Char} {radix : Radix} {text : Text} {written : String}

/-- What a digit of the bases up to sixteen stands for. -/
def digitValue (c : Char) : Nat :=
  if 'a' ≤ c then c.toNat - 'a'.toNat + 10
  else if 'A' ≤ c then c.toNat - 'A'.toNat + 10
  else c.toNat - '0'.toNat

namespace Radix

/-- The number that digits write, the last of which counts ones. -/
def valueOf (radix : Radix) (digits : Text) : Nat := Nat.ofDigits radix.base (digits.reverse.map digitValue)

def IsDigitOf (radix : Radix) (c : Char) : Prop := Lexeme.isHexDigit c = true ∧ digitValue c < radix.base

theorem char_le_iff {left right : Char} : left ≤ right ↔ left.toNat ≤ right.toNat := by
  rw [Char.le_def, UInt32.le_iff_toNat_le]
  rfl

theorem digitValue_of_isDigit (digit : c.isDigit = true) : digitValue c = c.toNat - 48 := by
  have range := isDigit_iff.mp digit
  simp only [digitValue, char_le_iff, Char.reduceToNat]
  rw [if_neg (by omega), if_neg (by omega)]

theorem isDigitOf_of_isDigit (digit : c.isDigit = true) (small : c.toNat - 48 < radix.base) : radix.IsDigitOf c :=
  ⟨by simp [Lexeme.isHexDigit, digit], by rwa [digitValue_of_isDigit digit]⟩

theorem isDigitOf_decimal (digit : c.isDigit = true) : decimal.IsDigitOf c := by
  have range := isDigit_iff.mp digit
  exact isDigitOf_of_isDigit digit (by simp only [base]; omega)

theorem isDigitOf_octal (digit : isOctalDigit c = true) : octal.IsDigitOf c := by
  simp only [isOctalDigit, Bool.and_eq_true, bne_iff_ne, ne_eq, ← Char.toNat_inj, Char.reduceToNat] at digit
  have range := isDigit_iff.mp digit.1.1
  exact isDigitOf_of_isDigit digit.1.1 (by simp only [base]; omega)

private theorem isHexDigit_iff : Lexeme.isHexDigit c = true ↔
    (48 ≤ c.toNat ∧ c.toNat ≤ 57) ∨ (97 ≤ c.toNat ∧ c.toNat ≤ 102) ∨ (65 ≤ c.toNat ∧ c.toNat ≤ 70) := by
  simp only [Lexeme.isHexDigit, Bool.or_eq_true, Bool.and_eq_true, decide_eq_true_eq, isDigit_iff, char_le_iff,
    Char.reduceToNat, or_assoc]

theorem isDigitOf_hexadecimal (digit : Lexeme.isHexDigit c = true) : hexadecimal.IsDigitOf c := by
  have range := isHexDigit_iff.mp digit
  refine ⟨digit, ?_⟩
  simp only [digitValue, char_le_iff, Char.reduceToNat, base]
  split_ifs <;> omega

private theorem digit?_eq (digit : radix.IsDigitOf c) : radix.digit? c = some (digitValue c) := by
  obtain ⟨isHex, small⟩ := digit
  have range := isHexDigit_iff.mp isHex
  obtain ⟨others, zeros⟩ : ∃ others, decimalZeros = 48 :: others := ⟨_, rfl⟩
  have plain : ¬ 65 ≤ c.toNat → decimalDigit? c = some (c.toNat - 48) := by
    intro low
    have first : 48 ≤ c.toNat ∧ c.toNat < 48 + 10 := by omega
    rw [decimalDigit?, zeros, find?_cons_of_pos (by simpa using first), Option.map_some]
  have value : (if 'a' ≤ c ∧ c ≤ 'f' then some (c.toNat - 'a'.toNat + 10)
      else if 'A' ≤ c ∧ c ≤ 'F' then some (c.toNat - 'A'.toNat + 10)
      else decimalDigit? c) = some (digitValue c) := by
    simp only [digitValue, char_le_iff, Char.reduceToNat]
    split_ifs <;> grind
  rw [digit?]
  simp only [value, Option.filter_some, small, decide_true, if_true]

private theorem digits?_eq (some : text ≠ []) (all : ∀ c ∈ text, radix.IsDigitOf c) :
    radix.digits? text = .some (text.map digitValue) := by
  induction text with
  | nil => exact absurd rfl some
  | cons c rest ih =>
    obtain ⟨first, others⟩ := forall_mem_cons.mp all
    cases rest with
    | nil => simp [digits?, digit?_eq first]
    | cons next =>
      have plain : next ≠ '_' := by
        rintro rfl
        cases (others '_' mem_cons_self).1
      have read := ih (by simp) others
      rw [digits?]
      · simp [digit?_eq first, read]
      · simp
      · simpa using plain

private theorem dropWhile_isPadding (all : ∀ c ∈ text, 48 ≤ c.toNat ∧ c.toNat ≤ 122) :
    text.dropWhile isPadding = text := by
  cases text with
  | nil => rfl
  | cons c =>
    obtain ⟨_, _⟩ := all c mem_cons_self
    have plain : isPadding c = false := by
      simp only [isPadding, isBlank]
      grind
    exact dropWhile_cons_of_neg (by simp [plain])

private theorem readInt_eq (all : ∀ c ∈ text, 48 ≤ c.toNat ∧ c.toNat ≤ 122) :
    radix.readInt text = do return (← radix.readNat text : Nat) := by
  have right : Text.dropRightWhile text isPadding = text := by
    rw [Text.dropRightWhile, dropWhile_isPadding (by simpa using all), reverse_reverse]
  rw [readInt, dropWhile_isPadding all, right]
  split
  · have least := (all '-' mem_cons_self).1
    simp at least
  · have least := (all '+' mem_cons_self).1
    simp at least
  · rfl

theorem readInt_of_digits {digits : Text} (range : ∀ c ∈ text, 48 ≤ c.toNat ∧ c.toNat ≤ 122)
    (unmarked : radix.dropMark text = digits) (some : digits ≠ []) (all : ∀ c ∈ digits, radix.IsDigitOf c) :
    radix.readInt text = if radix = .decimal ∧ digitLimit < digits.length then .error (.tooManyDigits digits.length)
      else .ok (radix.valueOf digits) := by
  have value : radix.ofDigits (digits.map digitValue) = radix.valueOf digits := by
    rw [valueOf, ofDigits, Nat.ofDigits_eq_foldr, map_reverse, foldr_reverse]
    simp only [Nat.cast_id, Nat.add_comm, Nat.mul_comm]
  rw [readInt_eq range, readNat, unmarked, digits?_eq some all]
  simp only [length_map, value]
  split <;> rfl

theorem decimal_dropMark (text : Text) : decimal.dropMark text = text := by
  unfold dropMark
  split <;> rfl

theorem readInt_decimal (some : text ≠ []) (all : AllDigits text) (short : text.length ≤ digitLimit) :
    decimal.readInt text = .ok (decimal.valueOf text) := by
  have range : ∀ c ∈ text, 48 ≤ c.toNat ∧ c.toNat ≤ 122 := by
    intro c member
    have digit := isDigit_iff.mp (all c member)
    omega
  rw [readInt_of_digits range (decimal_dropMark text) some fun c member => isDigitOf_decimal (all c member),
    if_neg (by omega)]

theorem octal_le_decimal (text : Text) : octal.valueOf text ≤ decimal.valueOf text :=
  Nat.ofDigits_monotone _ (by decide)

theorem valueOf_toString (number : Nat) : decimal.valueOf (toString number).toList = number := by
  have read := @Nat.ofDigitChars_toDigits 10 number (by decide) (by decide)
  rw [← Nat.toList_repr] at read
  rw [valueOf, Nat.ofDigits_eq_foldr, map_reverse, foldr_reverse, foldl_map]
  conv_rhs => rw [← read]
  rw [Nat.ofDigitChars]
  refine foldl_ext _ _ _ fun value c member => ?_
  have digit := @Nat.isDigit_of_mem_toDigits 10 number c (by decide) (by decide) (Nat.toList_repr ▸ member)
  simp only [digitValue_of_isDigit digit, base, Nat.cast_id, Char.reduceToNat]
  omega

end Radix

namespace Literal

/-- A decimal literal with more digits than are converted. With a leading zero a literal is octal or
hexadecimal, and then it has no limit. -/
def isOverlong (written : String) : Bool := written.toList.head? != some '0' && digitLimit < written.toList.length

/-- The base that a literal is written in, and its digits without the mark of the base. -/
def split : Text → Radix × Text
  | '0' :: 'x' :: digits | '0' :: 'X' :: digits => (.hexadecimal, digits)
  | '0' :: next :: rest => (.octal, '0' :: next :: rest)
  | digits => (.decimal, digits)

theorem split_octal {next : Char} {rest : Text} (digit : next.isDigit = true) :
    split ('0' :: next :: rest) = (.octal, '0' :: next :: rest) := by
  unfold split
  split
  next shape => cases shape; cases digit
  next shape => cases shape; cases digit
  next shape => cases shape; rfl
  next other => exact absurd rfl (other next rest)

theorem split_decimal {first : Char} (nonzero : first ≠ '0') : split (first :: text) = (.decimal, first :: text) := by
  unfold split
  split
  next shape => cases shape; exact absurd rfl nonzero
  next shape => cases shape; exact absurd rfl nonzero
  next shape => cases shape; exact absurd rfl nonzero
  · rfl

theorem intValue_eq_readInt (written : String) :
    intValue written = (split written.toList).1.readInt written.toList ∧ (isOverlong written = true ↔
        (split written.toList).1 = .decimal ∧ digitLimit < (split written.toList).2.length) := by
  rw [intValue, isOverlong]
  generalize written.toList = text
  fun_cases split text with
  | case1 | case2 | case3 => simp
  | case4 _ _ _ other =>
    match text, other with
    | [], _ => simp
    | [first], _ => simp [digitLimit]
    | first :: next :: rest, other =>
      have nonzero : first ≠ '0' := by
        rintro rfl
        exact other next rest rfl
      simp [nonzero]

theorem split_isInteger (form : IsInteger text) : (split text).1.dropMark text = (split text).2 ∧ (split text).2 ≠ [] ∧
    ∀ c ∈ (split text).2, (split text).1.IsDigitOf c := by
  cases form with
  | decimal digit nonzero all =>
    rw [split_decimal nonzero]
    exact ⟨Radix.decimal_dropMark _, by simp, forall_mem_cons.mpr ⟨Radix.isDigitOf_decimal digit,
      fun c member => Radix.isDigitOf_decimal (all c member)⟩⟩
  | @octal rest all =>
    cases rest with
    | nil => exact ⟨rfl, by simp [split], by simpa [split] using Radix.isDigitOf_decimal rfl⟩
    | cons next =>
      have digit := isDigit_of_isOctalDigit (all next mem_cons_self)
      have unmarked : Radix.octal.isMark next = false := by
        simp only [Radix.isMark, Bool.or_eq_false_iff, beq_eq_false_iff_ne]
        constructor <;> rintro rfl <;> cases digit
      rw [split_octal digit]
      exact ⟨by simp [Radix.dropMark, unmarked], by simp, forall_mem_cons.mpr
        ⟨Radix.isDigitOf_octal rfl, fun c member => Radix.isDigitOf_octal (all c member)⟩⟩
  | @hexadecimal mark digits isMark some all =>
    have plain : ∀ rest, digits ≠ '_' :: rest := by
      rintro rest rfl
      exact Bool.false_ne_true (all '_' mem_cons_self)
    have unmarked : Radix.hexadecimal.dropMark ('0' :: mark :: digits) = digits := by
      rw [Radix.dropMark, if_pos (by rcases isMark with rfl | rfl <;> rfl)]
      exact plain
    have whole : split ('0' :: mark :: digits) = (.hexadecimal, digits) := by
      rcases isMark with rfl | rfl <;> rfl
    rw [whole]
    exact ⟨unmarked, some, fun c member => Radix.isDigitOf_hexadecimal (all c member)⟩

private theorem isInteger_range (form : IsInteger text) : ∀ c ∈ text, 48 ≤ c.toNat ∧ c.toNat ≤ 122 := by
  have ofDigit : ∀ c : Char, c.isDigit = true → 48 ≤ c.toNat ∧ c.toNat ≤ 122 := by
    intro c digit
    have range := isDigit_iff.mp digit
    omega
  cases form with
  | decimal digit _ all => exact forall_mem_cons.mpr ⟨ofDigit _ digit, fun c member => ofDigit c (all c member)⟩
  | octal all =>
    refine forall_mem_cons.mpr ⟨by decide, fun c member => ?_⟩
    exact ofDigit c (isDigit_of_isOctalDigit (all c member))
  | @hexadecimal mark digits isMark _ all =>
    have ofMark : 48 ≤ mark.toNat ∧ mark.toNat ≤ 122 := by
      rcases isMark with rfl | rfl <;> decide
    refine forall_mem_cons.mpr ⟨by decide, forall_mem_cons.mpr ⟨ofMark, ?_⟩⟩
    intro c member
    have digit := Radix.isHexDigit_iff.mp (all c member)
    omega

/-- The value of an integer literal is what its digits write in its base, unless it has too many digits. -/
theorem intValue_eq (form : IsInteger written.toList) :
    intValue written = if isOverlong written then .error (.tooManyDigits (split written.toList).2.length)
      else .ok ((split written.toList).1.valueOf (split written.toList).2) := by
  obtain ⟨unmarked, some, all⟩ := split_isInteger form
  obtain ⟨read, overlong⟩ := intValue_eq_readInt written
  rw [read, Radix.readInt_of_digits (isInteger_range form) unmarked some all]
  simp only [overlong]

theorem intValue_isOk_iff (form : IsInteger written.toList) :
    (∃ value, intValue written = .ok value) ↔ isOverlong written = false := by
  rw [intValue_eq form]
  cases isOverlong written <;> simp

end Literal

theorem Literal.allDigits_toString (number : Nat) : AllDigits (toString number).toList := by
  intro c member
  exact @Nat.isDigit_of_mem_toDigits 10 number c (by decide) (by decide) (Nat.toList_repr ▸ member)

theorem Literal.toString_ne_nil (number : Nat) : (toString number).toList ≠ [] := by
  rw [show (toString number).toList = Nat.toDigits 10 number from Nat.toList_repr]
  exact Nat.toDigits_ne_nil

theorem Literal.space_notMem_toString (number : Nat) : ' ' ∉ (toString number).toList := by
  intro member
  have digit := allDigits_toString number ' ' member
  cases digit

/-- A decimal numeral: a zero stands at its start only if it stands alone. -/
def Literal.isDecimal (written : String) : Bool :=
  match written.toList with
  | '0' :: _ :: _ => false
  | _ => true

theorem Literal.isDecimal_toString (number : Nat) : isDecimal (toString number) = true := by
  have head : ∀ number, 0 < number → (Nat.toDigits 10 number).head? ≠ some '0' := by
    intro number
    induction number using Nat.strongRecOn with
    | _ number ih =>
      intro positive
      rcases Nat.lt_or_ge number 10 with small | large
      · rw [Nat.toDigits_of_lt_base small]
        interval_cases number <;> decide
      · rw [Nat.toDigits_of_base_le (by decide) large, head?_append_of_ne_nil _ Nat.toDigits_ne_nil]
        exact ih (number / 10) (by omega) (by omega)
  have shape : (toString number).toList = Nat.toDigits 10 number := Nat.toList_repr
  rw [isDecimal, shape]
  rcases Nat.eq_zero_or_pos number with rfl | positive
  · rfl
  · split
    next split => exact absurd (by rw [split]; rfl) (head number positive)
    · rfl

theorem Literal.intValue_digits (form : IsInteger written.toList) (all : AllDigits written.toList)
    (short : written.toList.length ≤ digitLimit) :
    ∃ value : Nat, intValue written = .ok value ∧ value ≤ Radix.decimal.valueOf written.toList ∧
      (isDecimal written = true → value = Radix.decimal.valueOf written.toList) := by
  have fits : isOverlong written = false := by simp [isOverlong, short]
  rw [intValue_eq form, fits, isDecimal]
  refine ⟨_, rfl, ?_⟩
  generalize written.toList = text at *
  cases form with
  | decimal _ nonzero =>
    rw [split_decimal nonzero]
    exact ⟨Nat.le_refl _, fun _ => rfl⟩
  | @octal rest _ =>
    cases rest with
    | nil => exact ⟨Nat.le_refl _, fun _ => rfl⟩
    | cons next =>
      rw [split_octal (all next (by simp))]
      exact ⟨Radix.octal_le_decimal _, nofun⟩
  | @hexadecimal mark digits isMark _ _ =>
    have digit := all mark (by simp)
    rcases isMark with rfl | rfl <;> cases digit

theorem Radix.readInt_toString {number : Nat} (short : (toString number).toList.length ≤ digitLimit) :
    decimal.readInt (toString number).toList = .ok number := by
  rw [readInt_decimal (Literal.toString_ne_nil number) (Literal.allDigits_toString number) short, valueOf_toString]

theorem Literal.intValue_toString {number : Nat} (short : (toString number).toList.length ≤ digitLimit) :
    intValue (toString number) = .ok number := by
  have decimal := isDecimal_toString number
  have read := Radix.readInt_toString short
  rw [isDecimal] at decimal
  rw [intValue]
  generalize (toString number).toList = text at *
  split
  · cases decimal
  · cases decimal
  · cases decimal
  · exact read

end SysYTools
