import SysYTools.Fault
import SysYTools.Text.Basic

/-!
Quoted text in TOML. Between double quotes a backslash starts an escape; between single quotes every
character stands for itself. Three quotes open a text that may hold line feeds. Control characters other
than the tab are not allowed.
-/

namespace SysYTools

namespace Toml

def malformed {α : Type} : Except Fault α := .error .badSettings

def isSpace (c : Char) : Bool := c == ' ' || c == '\t'

/-- A control character other than the tab. Comments and quoted texts on one line cannot hold it. -/
def isForbidden (c : Char) : Bool := (c.toNat < 0x20 && c != '\t') || c.toNat == 0x7f

def skipSpace (text : Text) : Text := text.dropWhile isSpace

def hexDigit? (c : Char) : Option Nat :=
  if c.isDigit then some (c.toNat - '0'.toNat)
  else if 'a' ≤ c && c ≤ 'f' then some (c.toNat - 'a'.toNat + 10)
  else if 'A' ≤ c && c ≤ 'F' then some (c.toNat - 'A'.toNat + 10)
  else none

def codeChar? (digits : List Char) : Option Char := do
  let code ← digits.foldlM (fun code digit => do return code * 16 + (← hexDigit? digit)) 0
  if code.isValidChar then some (Char.ofNat code) else none

/-- The character that a letter after a backslash stands for. -/
def escaped? : Char → Option Char
  | 'b' => some '\x08'
  | 't' => some '\t'
  | 'n' => some '\n'
  | 'f' => some '\x0c'
  | 'r' => some '\r'
  | '"' => some '"'
  | '\\' => some '\\'
  | _ => none

private def prepend (c : Option Char) (read : Except Fault (Text × Text)) : Except Fault (Text × Text) :=
  match c with
  | none => malformed
  | some c => read.map fun (text, rest) => (c :: text, rest)

def readBasic : Text → Except Fault (Text × Text)
  | [] => malformed
  | '"' :: rest => .ok ([], rest)
  | '\\' :: 'u' :: a :: b :: c :: d :: rest => prepend (codeChar? [a, b, c, d]) (readBasic rest)
  | '\\' :: 'U' :: a :: b :: c :: d :: e :: f :: g :: h :: rest =>
    prepend (codeChar? [a, b, c, d, e, f, g, h]) (readBasic rest)
  | '\\' :: letter :: rest => prepend (escaped? letter) (readBasic rest)
  | c :: rest => if c == '\\' || isForbidden c then malformed else prepend (some c) (readBasic rest)

def readLiteral : Text → Except Fault (Text × Text)
  | [] => malformed
  | '\'' :: rest => .ok ([], rest)
  | c :: rest => if isForbidden c then malformed else prepend (some c) (readLiteral rest)

/-- Up to two more quotes after the three that close a text belong to it. -/
def readExtraQuotes (quote : Char) : Text → Text × Text
  | c :: d :: rest =>
    if c = quote then
      if d = quote then ([c, d], rest) else ([c], d :: rest)
    else ([], c :: d :: rest)
  | [c] => if c = quote then ([c], []) else ([], [c])
  | [] => ([], [])

/-- What a text of several lines skips: nothing, blanks up to the end of a line, or all white space. -/
inductive Skipping where
  | nothing
  | toLineEnd
  | space
  deriving DecidableEq, Repr

/-- The text up to three double quotes. A backslash at the end of a line joins lines. -/
def readBasicLines : Skipping → Text → Except Fault (Text × Text)
  | _, [] => malformed
  | .toLineEnd, c :: rest =>
    if isSpace c then readBasicLines .toLineEnd rest
    else if c = '\n' then readBasicLines .space rest
    else malformed
  | skipping, '"' :: '"' :: '"' :: rest => if skipping = .toLineEnd then malformed else .ok (readExtraQuotes '"' rest)
  | _, '\\' :: 'u' :: a :: b :: c :: d :: rest => prepend (codeChar? [a, b, c, d]) (readBasicLines .nothing rest)
  | _, '\\' :: 'U' :: a :: b :: c :: d :: e :: f :: g :: h :: rest =>
    prepend (codeChar? [a, b, c, d, e, f, g, h]) (readBasicLines .nothing rest)
  | _, '\\' :: letter :: rest =>
    if letter = '\n' then readBasicLines .space rest
    else if isSpace letter then readBasicLines .toLineEnd rest
    else prepend (escaped? letter) (readBasicLines .nothing rest)
  | skipping, c :: rest =>
    if skipping = .space && (isSpace c || c == '\n') then readBasicLines .space rest
    else if c == '\\' || (isForbidden c && c != '\n') then malformed
    else prepend (some c) (readBasicLines .nothing rest)

def readLiteralLines : Text → Except Fault (Text × Text)
  | [] => malformed
  | '\'' :: '\'' :: '\'' :: rest => .ok (readExtraQuotes '\'' rest)
  | c :: rest => if isForbidden c && c != '\n' then malformed else prepend (some c) (readLiteralLines rest)

private def dropFeed : Text → Text
  | '\n' :: rest => rest
  | text => text

def readQuoted : Text → Except Fault (Text × Text)
  | '"' :: '"' :: '"' :: rest => readBasicLines .nothing (dropFeed rest)
  | '"' :: rest => readBasic rest
  | '\'' :: '\'' :: '\'' :: rest => readLiteralLines (dropFeed rest)
  | '\'' :: rest => readLiteral rest
  | _ => malformed

end Toml

end SysYTools
