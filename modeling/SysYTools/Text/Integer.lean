import SysYTools.Fault
import SysYTools.Text.Blank
import SysYTools.Text.Digit

/-!
Reading integers from text. Digits of all scripts count, a sign may stand in front, single underscores
may stand between digits, and white space around the number is dropped. Decimal numbers have a limit on
their digits, since their conversion is not linear; octal and hexadecimal ones have none.
-/

namespace SysYTools

inductive Radix where
  | octal
  | decimal
  | hexadecimal
  deriving DecidableEq, Repr

namespace Radix

def base : Radix → Nat
  | .octal => 8
  | .decimal => 10
  | .hexadecimal => 16

def digit? (radix : Radix) (c : Char) : Option Nat :=
  let value? :=
    if 'a' ≤ c ∧ c ≤ 'f' then some (c.toNat - 'a'.toNat + 10)
    else if 'A' ≤ c ∧ c ≤ 'F' then some (c.toNat - 'A'.toNat + 10)
    else decimalDigit? c
  value?.filter (· < radix.base)

def isMark : Radix → Char → Bool
  | .octal, c => c == 'o' || c == 'O'
  | .decimal, _ => false
  | .hexadecimal, c => c == 'x' || c == 'X'

/-- Removes the mark of the base, and one underscore after it. -/
def dropMark (radix : Radix) : Text → Text
  | '0' :: c :: rest =>
    if radix.isMark c then
      match rest with
      | '_' :: digits => digits
      | digits => digits
    else '0' :: c :: rest
  | text => text

/-- The values of the digits of a text that holds nothing else but single underscores between them. -/
def digits? (radix : Radix) : Text → Option (List Nat)
  | [] => none
  | [c] => (radix.digit? c).map ([·])
  | c :: '_' :: rest => do return (← radix.digit? c) :: (← digits? radix rest)
  | c :: rest => do return (← radix.digit? c) :: (← digits? radix rest)

def ofDigits (radix : Radix) (digits : List Nat) : Nat :=
  digits.foldl (fun value digit => value * radix.base + digit) 0

def readNat (radix : Radix) (text : Text) : Except Fault Nat :=
  match radix.digits? (radix.dropMark text) with
  | none => .error .notInteger
  | some digits =>
    if radix = .decimal ∧ digitLimit < digits.length then .error (.tooManyDigits digits.length)
    else .ok (radix.ofDigits digits)

/-- White space around a number. The information separators are not dropped. -/
def isPadding (c : Char) : Bool := isBlank c && !(0x1c ≤ c.toNat && c.toNat ≤ 0x1f)

def readInt (radix : Radix) (text : Text) : Except Fault Int :=
  match Text.dropRightWhile (text.dropWhile isPadding) isPadding with
  | '-' :: digits => do return -(← radix.readNat digits : Nat)
  | '+' :: digits => do return (← radix.readNat digits : Nat)
  | digits => do return (← radix.readNat digits : Nat)

end Radix

end SysYTools
