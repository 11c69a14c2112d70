import SysYTools.Toml.Quoted
import SysYTools.Value

/-!
Numbers, dates and times in TOML. Single underscores may stand between digits. Numbers with a fraction,
dates and times are kept as they are written.
-/

namespace SysYTools

namespace Toml

/-- Digits with single underscores between them, without the underscores. The first character has to be a
digit. -/
def readDigits (isDigit : Char → Bool) : Text → Option (Text × Text)
  | [] => none
  | c :: rest => if isDigit c then some (more [c] rest) else none
where
  more (digits : Text) : Text → Text × Text
    | '_' :: c :: rest => if isDigit c then more (c :: digits) rest else (digits.reverse, '_' :: c :: rest)
    | c :: rest => if isDigit c then more (c :: digits) rest else (digits.reverse, c :: rest)
    | [] => (digits.reverse, [])

def digitsValue (base : Nat) (digits : Text) : Nat :=
  digits.foldl (fun value digit => value * base + (hexDigit? digit).getD 0) 0

def isBinaryDigit (c : Char) : Bool := c == '0' || c == '1'

def isOctalDigit (c : Char) : Bool := '0' ≤ c && c ≤ '7'

def isHexDigit (c : Char) : Bool := (hexDigit? c).isSome

def readBased : Text → Option (Nat × Text)
  | '0' :: mark :: text => do
    let (base, isDigit) ←
      match mark with
      | 'x' => some (16, isHexDigit)
      | 'b' => some (2, isBinaryDigit)
      | 'o' => some (8, isOctalDigit)
      | _ => none
    let (digits, rest) ← readDigits isDigit text
    return (digitsValue base digits, rest)
  | _ => none

def readSign : Text → Bool × Text
  | '+' :: rest => (false, rest)
  | '-' :: rest => (true, rest)
  | text => (false, text)

def readWhole : Text → Option (Text × Text)
  | '0' :: rest => some (['0'], rest)
  | text => readDigits Char.isDigit text

def skipFraction : Text → Text
  | '.' :: text =>
    match readDigits Char.isDigit text with
    | some (_, rest) => rest
    | none => '.' :: text
  | text => text

def skipExponent : Text → Text
  | mark :: text =>
    if mark == 'e' || mark == 'E' then
      match readDigits Char.isDigit (readSign text).2 with
      | some (_, rest) => rest
      | none => mark :: text
    else mark :: text
  | [] => []

def before (text rest : Text) : String := String.ofList (text.take (text.length - rest.length))

def readDecimal (text : Text) : Option (Except Fault (Value × Text)) := do
  let (isNegative, unsigned) := readSign text
  let (digits, afterWhole) ← readWhole unsigned
  let rest := skipExponent (skipFraction afterWhole)
  return (
    if rest.length < afterWhole.length then .ok (.scalar (before text rest), rest)
    else if digitLimit < digits.length then .error (.tooManyDigits digits.length)
    else
      let value : Int := digitsValue 10 digits
      .ok (.int (if isNegative then -value else value), rest))

def readNumberWord (text : Text) : Option (Value × Text) := do
  let (_, unsigned) := readSign text
  let word := unsigned.take 3
  if word = ['i', 'n', 'f'] || word = ['n', 'a', 'n'] then
    let rest := unsigned.drop 3
    some (.scalar (before text rest), rest)
  else none

/-! ## Dates and times -/

def readField (width low high : Nat) (text : Text) : Option (Nat × Text) :=
  let digits := text.take width
  let value := digitsValue 10 digits
  if digits.length = width ∧ digits.all Char.isDigit ∧ low ≤ value ∧ value ≤ high then
    some (value, text.drop width)
  else none

def readChar (expected : Char) : Text → Option Text
  | c :: rest => if c = expected then some rest else none
  | [] => none

def skipTime (text : Text) : Option Text := do
  let (_, text) ← readField 2 0 23 text
  let (_, text) ← readField 2 0 59 (← readChar ':' text)
  let (_, text) ← readField 2 0 59 (← readChar ':' text)
  match text with
  | '.' :: c :: rest => if c.isDigit then some (rest.dropWhile Char.isDigit) else some text
  | _ => some text

def skipOffset : Text → Text
  | 'Z' :: rest | 'z' :: rest => rest
  | sign :: text =>
    let offset? : Option Text := do
      if sign == '+' || sign == '-' then
        let (_, text) ← readField 2 0 23 text
        let (_, text) ← readField 2 0 59 (← readChar ':' text)
        return text
      else none
    offset?.getD (sign :: text)
  | [] => []

def isLeapYear (year : Nat) : Bool := year % 4 == 0 && (year % 100 != 0 || year % 400 == 0)

def daysOf (year month : Nat) : Nat :=
  if month = 2 then (if isLeapYear year then 29 else 28)
  else if month = 4 ∨ month = 6 ∨ month = 9 ∨ month = 11 then 30
  else 31

def skipDateTime : Text → Text
  | mark :: text =>
    if mark == 'T' || mark == 't' || mark == ' ' then
      match skipTime text with
      | some rest => skipOffset rest
      | none => mark :: text
    else mark :: text
  | [] => []

/-- A date, with or without a time. It has to be a day of the calendar. -/
def readDate (text : Text) : Option (Except Fault (Value × Text)) := do
  let (year, rest) ← readField 4 0 9999 text
  let (month, rest) ← readField 2 1 12 (← readChar '-' rest)
  let (day, rest) ← readField 2 1 31 (← readChar '-' rest)
  let rest := skipDateTime rest
  return (
    if year = 0 ∨ daysOf year month < day then malformed
    else .ok (.scalar (before text rest), rest))

def readTime (text : Text) : Option (Except Fault (Value × Text)) := do
  let rest ← skipTime text
  return .ok (.scalar (before text rest), rest)

/-- A date, a time or a number. Dates and times come first, since they start with digits. -/
def readNumber (text : Text) : Except Fault (Value × Text) :=
  match readDate text with
  | some read => read
  | none =>
    match readTime text with
    | some read => read
    | none =>
      match readBased text with
      | some (value, rest) => .ok (.int value, rest)
      | none =>
        match readDecimal text with
        | some read => read
        | none =>
          match readNumberWord text with
          | some read => .ok read
          | none => malformed

end Toml

end SysYTools
