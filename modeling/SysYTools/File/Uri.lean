import SysYTools.File.Path

/-!
Names of documents as an editor gives them: a scheme, a host and a path. Some characters of a path stand as a
percent sign and two hexadecimal digits.
-/

namespace SysYTools

structure Uri where
  scheme : List Char
  host : List Char
  path : List Char
  deriving DecidableEq, Repr

namespace Uri

private def hexValue? (c : Char) : Option Nat :=
  if c.isDigit then some (c.toNat - '0'.toNat)
  else if 'a' ≤ c && c ≤ 'f' then some (c.toNat - 'a'.toNat + 10)
  else if 'A' ≤ c && c ≤ 'F' then some (c.toNat - 'A'.toNat + 10)
  else none

/-- The bytes that a text with percent signs stands for. -/
def percentBytes : List Char → List UInt8
  | '%' :: high :: low :: rest =>
    match hexValue? high, hexValue? low with
    | some high, some low => (high * 16 + low).toUInt8 :: percentBytes rest
    | _, _ => '%'.toNat.toUInt8 :: percentBytes (high :: low :: rest)
  | c :: rest => (String.singleton c).toUTF8.toList ++ percentBytes rest
  | [] => []

/-- The text without percent signs. A text whose bytes are not UTF-8 stays as it is. -/
def decode (text : List Char) : List Char :=
  match String.fromUTF8? ⟨(percentBytes text).toArray⟩ with
  | some decoded => decoded.toList
  | none => text

private def isSchemeChar (c : Char) : Bool := c.isAlphanum || c == '+' || c == '-' || c == '.'

/-- The scheme in front of the first colon, and the rest. A name without a scheme is all rest. -/
def splitScheme (text : List Char) : List Char × List Char :=
  let scheme := text.takeWhile (· != ':')
  match text.dropWhile (· != ':') with
  | _ :: rest =>
    if scheme.head?.any Char.isAlpha && scheme.all isSchemeChar then (scheme.map Char.toLower, rest)
    else ([], text)
  | [] => ([], text)

def splitHost : List Char → List Char × List Char
  | '/' :: '/' :: rest =>
    let isHostChar (c : Char) : Bool := c != '/' && c != '?' && c != '#'
    (rest.takeWhile isHostChar, rest.dropWhile isHostChar)
  | text => ([], text)

/-- The parts of a name. A query and a fragment are left out. -/
def ofString (written : String) : Uri :=
  let text := (written.toList.dropWhile (·.toNat ≤ 0x20)).filter fun c => c != '\t' && c != '\r' && c != '\n'
  let (scheme, rest) := splitScheme text
  let (host, rest) := splitHost rest
  { scheme, host := decode host, path := decode (rest.takeWhile fun c => c != '?' && c != '#') }

def fileScheme : List Char := ['f', 'i', 'l', 'e']

/-- The path that a name holds. There is none if it is empty. A path that starts with the letter of a drive
starts there, and the host of a file is its first step. -/
def filePath? (uri : Uri) : Option FilePath :=
  if uri.path.isEmpty then none
  else
    let path :=
      if uri.scheme == fileScheme && !uri.host.isEmpty then '/' :: '/' :: uri.host ++ uri.path
      else
        match uri.path with
        | '/' :: letter :: ':' :: rest => if letter.isAlpha then letter.toLower :: ':' :: rest else uri.path
        | path => path
    some (FilePath.ofString (String.ofList path))

end Uri

end SysYTools
