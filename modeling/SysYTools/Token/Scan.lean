import SysYTools.Token.Lexeme

/-!
The tokens of a program text, with exact places. All lexical problems of the text are found in one pass,
and a text with problems has no tokens.
-/

namespace SysYTools

structure Place where
  line : Nat
  column : Nat
  deriving DecidableEq, Repr

namespace Place

def start : Place := { line := 1, column := 1 }

def next (place : Place) (c : Char) : Place :=
  if c = '\n' then { line := place.line + 1, column := 1 }
  else { place with column := place.column + 1 }

def after (place : Place) (text : Text) : Place := text.foldl next place

/-- The span from one place up to the character before another. At the start of a line the span ends in
the first column. -/
def spanTo (file : String) (first next : Place) : Span :=
  { file
    startLine := first.line
    startColumn := first.column
    endLine := next.line
    endColumn := (max 1 (next.column - 1) : Nat) }

end Place

structure Scan where
  tokens : List Token
  reports : List Report

namespace Scan

/-- Adds what one lexeme contributes in front of what the rest of the text contributes. -/
def add (file : String) (lexeme : Lexeme) (written : Text) (first next : Place) (scan : Scan) : Scan :=
  let token (kind : TokenKind) : Token :=
    { kind, value := String.ofList written, span := Place.spanTo file first next }
  let report (problem : Problem) : Report :=
    { problem, span := Span.point file first.line first.column }
  match lexeme with
  | .gap => scan
  | .unclosedComment => { scan with reports := report .unterminatedComment :: scan.reports }
  | .token kind => { scan with tokens := token kind :: scan.tokens }
  | .badInteger problem =>
    { tokens := token .integerLiteral :: scan.tokens, reports := report problem :: scan.reports }
  | .unknown =>
    { scan with reports := report (.unexpectedCharacter (written.headD ' ')) :: scan.reports }

/-- Reads lexeme after lexeme, and ends with the token for the end of the text. -/
def ofTextFrom (file : String) (place : Place) : Text → Scan
  | [] => { tokens := [⟨.endOfInput, "", Place.spanTo file place place⟩], reports := [] }
  | c :: rest =>
    let (lexeme, length) := Lexeme.read c rest
    let written := c :: rest.take length
    let next := place.after written
    (ofTextFrom file next (rest.drop length)).add file lexeme written place next
termination_by text => text.length
decreasing_by simp only [List.length_drop, List.length_cons]; omega

def ofText (file : String) (text : Text) : Scan := ofTextFrom file .start text

end Scan

/-- The tokens of a text that has no lexical problem. -/
def Token.scan (file : String) (text : Text) : Except (List Report) (List Token) :=
  let scan := Scan.ofText file text
  if scan.reports.isEmpty then .ok scan.tokens else .error scan.reports

end SysYTools
