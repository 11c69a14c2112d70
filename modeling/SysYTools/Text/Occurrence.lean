import SysYTools.Text.Blank
import SysYTools.Text.Digit
import SysYTools.Text.Word

/-!
Finding forms in raw text. A reader takes a form from the start of a text and yields what it found and
the text after it. Its occurrences start at word boundaries and do not overlap.
-/

namespace SysYTools

namespace Text

/-- Takes a form from the start of a text: what it holds, and the rest. -/
abbrev Reader (α : Type) := Text → Option (α × Text)

structure Occurrence (α : Type) where
  start : Nat
  stop : Nat
  value : α
  deriving Repr

variable {α : Type}

/-- The occurrences that start at `resume` or later. -/
def occurrencesFrom (read : Reader α) (before : Option Char) (index resume : Nat) :
    Text → List (Occurrence α)
  | [] => []
  | c :: rest =>
    let found := if resume ≤ index && isWordBoundary before (some c) then read (c :: rest) else none
    match found with
    | none => occurrencesFrom read (some c) (index + 1) resume rest
    | some (value, after) =>
      let stop := index + ((c :: rest).length - after.length)
      { start := index, stop, value } :: occurrencesFrom read (some c) (index + 1) stop rest

def occurrences (text : Text) (read : Reader α) (offset : Nat) : List (Occurrence α) :=
  occurrencesFrom read none 0 offset text

/-- What a form holds where it stands first in a text, at a word boundary or not. -/
def search? (text : Text) (read : Reader α) : Option α :=
  match read text with
  | some (value, _) => some value
  | none =>
    match text with
    | [] => none
    | _ :: rest => search? rest read

/-! ## Readers -/

def readMark (mark : Char) (text : Text) : Option Text :=
  match text.stripLeft with
  | [] => none
  | c :: rest => if c = mark then some rest else none

def readExactly (expected text : Text) : Option Text :=
  if expected.isPrefixOf text then some (text.drop expected.length) else none

/-- A name: a letter of ASCII or an underscore, and the word characters after it. -/
def readName : Reader Text
  | [] => none
  | c :: rest => if isNameStart c then some (c :: rest.takeWhile isWordChar, rest.dropWhile isWordChar) else none

def readWord : Reader Text := fun text =>
  let word := text.takeWhile isWordChar
  if word.isEmpty then none else some (word, text.dropWhile isWordChar)

def readDigits : Reader Text := fun text =>
  let digits := text.takeWhile isDecimalDigit
  if digits.isEmpty then none else some (digits, text.dropWhile isDecimalDigit)

/-- A number in brackets. White space may stand before and inside the brackets. -/
def readSize : Reader Text := fun text => do
  let text ← readMark '[' text
  let (digits, text) ← readDigits text.stripLeft
  let text ← readMark ']' text
  return (digits, text)

def readCallHead : Reader Text := fun text => do
  let (name, text) ← readName text
  let text ← readMark '(' text
  return (name, text)

def readSizeOf (name : Text) : Reader Text := fun text => do
  readSize (← readExactly name text)

private theorem length_dropWhile_le (text : Text) (drops : Char → Bool) :
    (text.dropWhile drops).length ≤ text.length :=
  (List.dropWhile_sublist drops).length_le

/-- The text after any number of brackets without a closing bracket in them. White space may stand
before each of them. -/
def skipBrackets (text : Text) : Text :=
  match _ : text.stripLeft with
  | '[' :: inside =>
    match _ : inside.dropWhile (· != ']') with
    | _ :: rest => skipBrackets rest
    | [] => text
  | _ => text
termination_by text.length
decreasing_by
  have outer := length_dropWhile_le text isBlank
  have inner := length_dropWhile_le inside (· != ']')
  simp_all only [stripLeft, List.length_cons]
  omega

end Text

end SysYTools
