import SysYTools.Problem
import SysYTools.Text.Word
import SysYTools.Token.Basic

/-!
Lexemes: the pieces into which program text falls. Reading one yields what it is and how many
characters after the first belong to it, so the pieces of a text always add up to the text. Only ASCII
letters and digits are known here, unlike in the rest of the library.
-/

namespace SysYTools

inductive Lexeme where
  /-- One blank, or a closed comment. -/
  | gap
  | unclosedComment
  | token (kind : TokenKind)
  /-- An integer literal that cannot be read as a number. It is a token all the same. -/
  | badInteger (problem : Problem)
  | unknown
  deriving DecidableEq, Repr

namespace Lexeme

def isGapChar (c : Char) : Bool := c == ' ' || c == '\t' || c == '\r' || c == '\n'

def isHexDigit (c : Char) : Bool := c.isDigit || ('a' ≤ c && c ≤ 'f') || ('A' ≤ c && c ≤ 'F')

def isNameChar (c : Char) : Bool := isNameStart c || c.isDigit

/-- The length of the rest of a block comment, and whether it is closed. -/
def commentBody : Text → Nat × Bool
  | [] => (0, false)
  | '*' :: '/' :: _ => (2, true)
  | _ :: rest =>
    let (length, closed) := commentBody rest
    (length + 1, closed)

def digits (text : Text) : Text := text.takeWhile Char.isDigit

def fraction : Text → Text
  | '.' :: rest => '.' :: digits rest
  | _ => []

def isExponentMark (c : Char) : Bool := c == 'e' || c == 'E'

/-- An exponent: a mark, a sign if there is one, and at least one digit. -/
def exponent : Text → Text
  | mark :: rest =>
    if !isExponentMark mark then []
    else
      match rest with
      | sign :: more =>
        if sign == '+' || sign == '-' then
          if (digits more).isEmpty then [] else mark :: sign :: digits more
        else if (digits rest).isEmpty then [] else mark :: digits rest
      | [] => []
  | [] => []

/-- A hexadecimal literal. The text starts after the leading zero, at the mark of the base. -/
def hexadecimal (text : Text) : Lexeme × Nat :=
  let found := (text.drop 1).takeWhile isHexDigit
  if found.isEmpty then (.badInteger .hexWithoutDigits, 1)
  else (.token .integerLiteral, found.length + 1)

/-- A decimal or octal literal, or one with a fraction or an exponent. -/
def decimal (text : Text) : Lexeme × Nat :=
  let whole := digits text
  let part := fraction (text.drop whole.length)
  let power := exponent (text.drop (whole.length + part.length))
  let written := whole ++ part ++ power
  let lexeme :=
    if !part.isEmpty || !power.isEmpty then .token .floatLiteral
    else if 1 < whole.length && whole.head? == some '0' && whole.any (fun c => c == '8' || c == '9') then
      .badInteger (.invalidOctal (String.ofList whole))
    else .token .integerLiteral
  (lexeme, written.length - 1)

/-- The lexeme at the start of a text: what it is, and how many characters it has after the first. -/
def read (c : Char) (rest : Text) : Lexeme × Nat :=
  if isGapChar c then
    (.gap, 0)
  else if c == '/' && rest.head? == some '/' then
    (.gap, (rest.takeWhile (· != '\n')).length)
  else if c == '/' && rest.head? == some '*' then
    let (length, closed) := commentBody (rest.drop 1)
    (if closed then .gap else .unclosedComment, length + 1)
  else if c == '0' && (rest.head? == some 'x' || rest.head? == some 'X') then
    hexadecimal rest
  else if c.isDigit || (c == '.' && rest.head?.any Char.isDigit) then
    decimal (c :: rest)
  else if isNameStart c then
    let more := rest.takeWhile isNameChar
    (.token (.ofWord (String.ofList (c :: more))), more.length)
  else
    match rest.head?.bind (TokenKind.ofPair? c) with
    | some kind => (.token kind, 1)
    | none =>
      match TokenKind.ofChar? c with
      | some kind => (.token kind, 0)
      | none => (.unknown, 0)

end Lexeme

end SysYTools
