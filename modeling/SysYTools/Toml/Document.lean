import SysYTools.Toml.Number
import SysYTools.Toml.Table

/-!
Reading a TOML document. A line holds nothing, a comment, a header that opens a section, or a key with a
value. Arrays and inline tables nest, and their depth is bounded by the length of the text.
-/

namespace SysYTools

namespace Toml

/-! ## Keys -/

def isBareChar (c : Char) : Bool := c.isAlphanum || c == '-' || c == '_'

def readKeyPart : Text → Except Fault (String × Text)
  | '"' :: rest => (readBasic rest).map fun (part, rest) => (String.ofList part, rest)
  | '\'' :: rest => (readLiteral rest).map fun (part, rest) => (String.ofList part, rest)
  | text =>
    match text.takeWhile isBareChar with
    | [] => malformed
    | part => .ok (String.ofList part, text.dropWhile isBareChar)

/-- A key: parts with points between them. White space may stand around the points. -/
def readKey (fuel : Nat) (text : Text) : Except Fault (Key × Text) :=
  match fuel with
  | 0 => malformed
  | fuel + 1 => do
    let (part, rest) ← readKeyPart text
    match skipSpace rest with
    | '.' :: rest =>
      let (more, rest) ← readKey fuel (skipSpace rest)
      return (part :: more, rest)
    | rest => return ([part], rest)

/-! ## Values -/

def skipComment : Text → Except Fault Text
  | '#' :: text =>
    if (text.takeWhile (· != '\n')).any isForbidden then malformed
    else .ok (text.dropWhile (· != '\n'))
  | text => .ok text

def skipLines (fuel : Nat) (text : Text) : Except Fault Text :=
  match fuel with
  | 0 => malformed
  | fuel + 1 => do
    let text := text.dropWhile fun c => isSpace c || c == '\n'
    match text with
    | '#' :: _ => skipLines fuel (← skipComment text)
    | _ => return text

mutual

def readValue (fuel : Nat) (text : Text) : Except Fault (Value × Text) :=
  match fuel with
  | 0 => malformed
  | fuel + 1 =>
    match text with
    | '"' :: _ | '\'' :: _ => do
      let (quoted, rest) ← readQuoted text
      return (.text (String.ofList quoted), rest)
    | 't' :: 'r' :: 'u' :: 'e' :: rest => .ok (.bool true, rest)
    | 'f' :: 'a' :: 'l' :: 's' :: 'e' :: rest => .ok (.bool false, rest)
    | '[' :: rest => do
      let (items, rest) ← readItems fuel (← skipLines (rest.length + 1) rest)
      return (.list items, rest)
    | '\x7b' :: rest =>
      match skipSpace rest with
      | '\x7d' :: rest => .ok (.record [], rest)
      | rest => do
        let (entries, rest) ← readPairs fuel [] rest
        return (.record (Entries.toFields entries), rest)
    | _ => readNumber text

def readItems (fuel : Nat) (text : Text) : Except Fault (List Value × Text) :=
  match fuel with
  | 0 => malformed
  | fuel + 1 =>
    match text with
    | ']' :: rest => .ok ([], rest)
    | _ => do
      let (item, rest) ← readValue fuel text
      match ← skipLines (rest.length + 1) rest with
      | ']' :: rest => return ([item], rest)
      | ',' :: rest =>
        let (items, rest) ← readItems fuel (← skipLines (rest.length + 1) rest)
        return (item :: items, rest)
      | _ => malformed

def readPairs (fuel : Nat) (entries : Entries) (text : Text) : Except Fault (Entries × Text) :=
  match fuel with
  | 0 => malformed
  | fuel + 1 => do
    let (key, rest) ← readKey (text.length + 1) text
    match rest with
    | '=' :: rest =>
      let (value, rest) ← readValue fuel (skipSpace rest)
      match entries.putValue 0 value key with
      | none => malformed
      | some entries =>
        match skipSpace rest with
        | '\x7d' :: rest => return (entries, rest)
        | ',' :: rest => readPairs fuel entries (skipSpace rest)
        | _ => malformed
    | _ => malformed

end

/-! ## Lines -/

/-- The tables so far, and the section that the next keys belong to. -/
structure Progress where
  entries : Entries
  /-- The number of headers so far. -/
  number : Nat
  header : Key

namespace Progress

def empty : Progress :=
  { entries := [], number := 0, header := [] }

private def orMalformed (header : Key) (number : Nat) : Option Entries → Except Fault Progress
  | some entries => .ok { entries, number, header }
  | none => malformed

private def modifyLast (entries : Entries) (key : Key) (change : Entries → String → Option Entries) :
    Option Entries :=
  match key.getLast? with
  | none => none
  | some name => entries.modifyAt key.dropLast (change · name)

def openTable (progress : Progress) (key : Key) : Except Fault Progress :=
  let number := progress.number + 1
  orMalformed key number (modifyLast progress.entries key (·.openTable number))

def addTable (progress : Progress) (key : Key) : Except Fault Progress :=
  orMalformed key (progress.number + 1) (modifyLast progress.entries key (·.addTable))

def put (progress : Progress) (key : Key) (value : Value) : Except Fault Progress :=
  orMalformed progress.header progress.number
    (progress.entries.modifyAt progress.header (·.putValue progress.number value key))

end Progress

def readStatement (progress : Progress) (text : Text) : Except Fault (Progress × Text) :=
  match text with
  | [] | '\n' :: _ | '#' :: _ => .ok (progress, text)
  | '[' :: '[' :: text => do
    let (key, rest) ← readKey (text.length + 1) (skipSpace text)
    match rest with
    | ']' :: ']' :: rest => return (← progress.addTable key, rest)
    | _ => malformed
  | '[' :: text => do
    let (key, rest) ← readKey (text.length + 1) (skipSpace text)
    match rest with
    | ']' :: rest => return (← progress.openTable key, rest)
    | _ => malformed
  | text => do
    let (key, rest) ← readKey (text.length + 1) text
    match rest with
    | '=' :: rest =>
      let (value, rest) ← readValue (2 * rest.length + 2) (skipSpace rest)
      return (← progress.put key value, rest)
    | _ => malformed

def readLines (fuel : Nat) (progress : Progress) (text : Text) : Except Fault Progress :=
  match fuel with
  | 0 => malformed
  | fuel + 1 => do
    let (progress, rest) ← readStatement progress (skipSpace text)
    match ← skipComment (skipSpace rest) with
    | [] => return progress
    | '\n' :: rest => readLines fuel progress rest
    | _ => malformed

def unifyLineEnds : Text → Text
  | '\r' :: '\n' :: rest => '\n' :: unifyLineEnds rest
  | c :: rest => c :: unifyLineEnds rest
  | [] => []

def parse (text : Text) : Except Fault Value := do
  let text := unifyLineEnds text
  let progress ← readLines (text.length + 1) .empty text
  return .record (Entries.toFields progress.entries)

end Toml

end SysYTools
