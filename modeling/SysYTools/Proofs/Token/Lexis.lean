import Mathlib
import SysYTools.Token.Lexeme

/-!
The token grammar: which texts are tokens, and of which kind. It says nothing about how a token is found
in a longer text. The reader of lexemes finds the longest token at the start of a text, and it takes a
comment where one starts before it looks for a token.
-/

namespace SysYTools.Lexis

open Lexeme

variable {c : Char}

def AllDigits (text : Text) : Prop := ∀ c ∈ text, c.isDigit = true

def isOctalDigit (c : Char) : Bool := c.isDigit && c != '8' && c != '9'

/-- The form of a name or a keyword. -/
inductive IsWord : Text → Prop where
  | mk {first : Char} {rest : Text} :
      isNameStart first = true → (∀ c ∈ rest, isNameChar c = true) → IsWord (first :: rest)

/-- The integer literals. A zero alone is octal. -/
inductive IsInteger : Text → Prop where
  | decimal {first : Char} {rest : Text} :
      first.isDigit = true → first ≠ '0' → AllDigits rest → IsInteger (first :: rest)
  | octal {rest : Text} : (∀ c ∈ rest, isOctalDigit c = true) → IsInteger ('0' :: rest)
  | hexadecimal {mark : Char} {digits : Text} :
      mark = 'x' ∨ mark = 'X' → digits ≠ [] → (∀ c ∈ digits, isHexDigit c = true) →
      IsInteger ('0' :: mark :: digits)

inductive IsExponent : Text → Prop where
  | plain {mark : Char} {digits : Text} :
      isExponentMark mark = true → digits ≠ [] → AllDigits digits → IsExponent (mark :: digits)
  | signed {mark sign : Char} {digits : Text} :
      isExponentMark mark = true → sign = '+' ∨ sign = '-' → digits ≠ [] → AllDigits digits →
      IsExponent (mark :: sign :: digits)

/-- The literals with a point or an exponent. A point has a digit on one side at least. -/
inductive IsFloat : Text → Prop where
  | point {whole part power : Text} :
      AllDigits whole → AllDigits part → whole ≠ [] ∨ part ≠ [] → power = [] ∨ IsExponent power →
      IsFloat (whole ++ ('.' :: part) ++ power)
  | power {whole power : Text} :
      AllDigits whole → whole ≠ [] → IsExponent power → IsFloat (whole ++ power)

def symbols : List (Text × TokenKind) :=
  [ (['+'], .plus), (['-'], .minus), (['*'], .star), (['/'], .slash), (['%'], .percent),
    (['=', '='], .equal), (['!', '='], .notEqual), (['<'], .less), (['>'], .greater),
    (['<', '='], .lessEqual), (['>', '='], .greaterEqual), (['&', '&'], .and), (['|', '|'], .or),
    (['!'], .bang), (['='], .assign), (['('], .leftParen), ([')'], .rightParen),
    (['['], .leftBracket), ([']'], .rightBracket), (['\x7b'], .leftBrace), (['\x7d'], .rightBrace),
    ([','], .comma), ([';'], .semicolon) ]

/-- The tokens and their kinds. A word that is a keyword is no name. -/
inductive IsToken : TokenKind → Text → Prop where
  | word {text : Text} : IsWord text → IsToken (.ofWord (String.ofList text)) text
  | integer {text : Text} : IsInteger text → IsToken .integerLiteral text
  | float {text : Text} : IsFloat text → IsToken .floatLiteral text
  | symbol {kind : TokenKind} {text : Text} : (text, kind) ∈ symbols → IsToken kind text

/-- The longest token at the start of a text. -/
structure Longest (kind : TokenKind) (value text : Text) : Prop where
  token : IsToken kind value
  start : value <+: text
  most : ∀ {other : TokenKind} {longer : Text}, IsToken other longer → longer <+: text → longer.length ≤ value.length

/-- A blank or a comment with the text after it. A line comment goes up to the line feed, and a block
comment up to the first mark that closes it. -/
inductive IsGap : Text → Text → Prop where
  | blank {c : Char} {rest : Text} : isGapChar c = true → IsGap [c] rest
  | line {body rest : Text} : '\n' ∉ body → rest = [] ∨ rest.head? = some '\n' →
      IsGap ('/' :: '/' :: body) rest
  | block {body rest : Text} : ¬ ['*', '/'] <:+: body → IsGap ('/' :: '*' :: body ++ ['*', '/']) rest

def StartsComment (text : Text) : Prop := ['/', '/'] <+: text ∨ ['/', '*'] <+: text

/-! ## Classes of characters -/

theorem isDigit_iff : c.isDigit = true ↔ 48 ≤ c.toNat ∧ c.toNat ≤ 57 := by
  simp only [Char.isDigit, Bool.and_eq_true, decide_eq_true_eq, ge_iff_le, UInt32.le_iff_toNat_le]
  rfl

theorem isNameStart_iff : isNameStart c = true ↔
    (65 ≤ c.toNat ∧ c.toNat ≤ 90) ∨ (97 ≤ c.toNat ∧ c.toNat ≤ 122) ∨ c.toNat = 95 := by
  have underscore : c = '_' ↔ c.toNat = 95 := (Char.toNat_inj (d := '_')).symm
  simp only [isNameStart, Char.isAlpha, Char.isUpper, Char.isLower, Bool.or_eq_true, Bool.and_eq_true,
    decide_eq_true_eq, ge_iff_le, UInt32.le_iff_toNat_le, beq_iff_eq, underscore]
  exact or_assoc

theorem not_isNameStart_of_isDigit (digit : c.isDigit = true) : isNameStart c = false := by
  rw [Bool.eq_false_iff, ne_eq, isNameStart_iff]
  rw [isDigit_iff] at digit
  omega

theorem not_isDigit_of_isExponentMark (mark : isExponentMark c = true) : c.isDigit = false := by
  simp only [isExponentMark, Bool.or_eq_true, beq_iff_eq] at mark
  rcases mark with rfl | rfl <;> rfl

theorem isDigit_of_isOctalDigit (digit : isOctalDigit c = true) : c.isDigit = true := by
  simp only [isOctalDigit, Bool.and_eq_true] at digit
  exact digit.1.1

end SysYTools.Lexis
