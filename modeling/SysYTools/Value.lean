import SysYTools.Text.Integer
import SysYTools.Text.Printable

/-!
Data without a fixed form: payloads of diagnostics, arguments of commands and settings. The module
says when such a value counts as given, and how an integer or a text is taken from it.
-/

namespace SysYTools

inductive Value where
  | null
  | bool (value : Bool)
  | int (value : Int)
  /-- A number with a fraction or a date, kept as it is written. -/
  | scalar (written : String)
  | text (value : String)
  | list (items : List Value)
  | record (fields : List (String × Value))
  deriving Repr, Inhabited

namespace Value

/-- A value is given unless it is null, false, zero or empty. -/
def isGiven : Value → Bool
  | .null => false
  | .bool value => value
  | .int value => value != 0
  | .scalar _ => true
  | .text value => value != ""
  | .list items => !items.isEmpty
  | .record fields => !fields.isEmpty

def field? : Value → String → Option Value
  | .record fields, name => fields.lookup name
  | _, _ => none

def field : Value → String → Except Fault Value
  | .record fields, name =>
    match fields.lookup name with
    | some value => .ok value
    | none => .error (.missingField name)
  | _, _ => .error .wrongKind

/-- The integer that a value stands for. Texts are read, and truth values count as zero and one. -/
def toInt : Value → Except Fault Int
  | .bool value => .ok (if value then 1 else 0)
  | .int value => .ok value
  | .text value => Radix.decimal.readInt value.toList
  | _ => .error .wrongKind

private def hexDigits (width code : Nat) : String :=
  let digits := Nat.toDigits 16 code
  String.ofList (List.replicate (width - digits.length) '0' ++ digits)

/-- A character between quotes. One that cannot be printed is written by its code. -/
private def quoteChar (quote c : Char) : String :=
  if c == quote || c == '\\' then String.ofList ['\\', c]
  else if c == '\n' then "\\n"
  else if c == '\r' then "\\r"
  else if c == '\t' then "\\t"
  else if isPrintable c then String.singleton c
  else if c.toNat < 0x100 then "\\x" ++ hexDigits 2 c.toNat
  else if c.toNat < 0x10000 then "\\u" ++ hexDigits 4 c.toNat
  else "\\U" ++ hexDigits 8 c.toNat

/-- A text between single quotes, or between double quotes if only those do not occur in it. -/
def quote (text : String) : String :=
  let mark := if text.toList.contains '\'' && !text.toList.contains '"' then '"' else '\''
  String.singleton mark ++ String.join (text.toList.map (quoteChar mark)) ++ String.singleton mark

mutual

def displayInside : Value → String
  | .null => "None"
  | .bool value => if value then "True" else "False"
  | .int value => toString value
  | .scalar written => written
  | .text value => quote value
  | .list items => "[" ++ ", ".intercalate (displayItems items) ++ "]"
  | .record fields => "\x7b" ++ ", ".intercalate (displayFields fields) ++ "\x7d"

def displayItems : List Value → List String
  | [] => []
  | item :: rest => displayInside item :: displayItems rest

def displayFields : List (String × Value) → List String
  | [] => []
  | (name, value) :: rest => s!"{quote name}: {displayInside value}" :: displayFields rest

end

/-- A value as text. A text stands for itself. -/
def display : Value → String
  | .text value => value
  | value => value.displayInside

end Value

end SysYTools
