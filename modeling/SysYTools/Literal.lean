import SysYTools.Text.Integer
import SysYTools.Tree.Basic

/-!
Literals: the value of an integer literal, the type that the form of a text suggests, and the literal
that stands for a type in generated code.
-/

namespace SysYTools

namespace Literal

/-- The value of an integer literal. A leading zero makes it octal, a zero and an `x` hexadecimal. -/
def intValue (written : String) : Except Fault Int :=
  match written.toList with
  | '0' :: 'x' :: _ | '0' :: 'X' :: _ => Radix.hexadecimal.readInt written.toList
  | '0' :: _ :: _ => Radix.octal.readInt written.toList
  | text => Radix.decimal.readInt text

def isHexText (text : Text) : Bool :=
  !text.isEmpty && text.all fun c => c.isDigit || ('a' ≤ c && c ≤ 'f') || ('A' ≤ c && c ≤ 'F')

def isDigitText (text : Text) : Bool := !text.isEmpty && text.all isDecimalDigit

/-- Hexadecimal, or decimal digits only. -/
def isIntForm : Text → Bool
  | '0' :: 'x' :: digits | '0' :: 'X' :: digits => isHexText digits
  | text => isDigitText text

/-- Nothing, or a mark, a sign if there is one, and digits. -/
def isExponentForm : Text → Bool
  | [] => true
  | mark :: '+' :: digits | mark :: '-' :: digits => (mark == 'e' || mark == 'E') && isDigitText digits
  | mark :: digits => (mark == 'e' || mark == 'E') && isDigitText digits

/-- Digits with a point before, after or between them, or an exponent. -/
def isFloatForm (text : Text) : Bool :=
  let whole := text.takeWhile isDecimalDigit
  match text.dropWhile isDecimalDigit with
  | '.' :: rest =>
    let part := rest.takeWhile isDecimalDigit
    !(whole.isEmpty && part.isEmpty) && isExponentForm (rest.dropWhile isDecimalDigit)
  | rest => !whole.isEmpty && isExponentForm rest

def typeOf? (text : Text) : Option BaseType :=
  let text := text.strip
  if isIntForm text then some .int
  else if isFloatForm text then some .float
  else none

/-- A literal for a type, given by its name. -/
def placeholder (typeName : String) : String := if typeName == BaseType.float.name then "0.0" else "0"

end Literal

end SysYTools
