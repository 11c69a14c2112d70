import SysYTools.Span

/-!
Tokens of SysY: what kind they have, how they are written and where they stand.
-/

namespace SysYTools

inductive TokenKind where
  | intKeyword | floatKeyword | voidKeyword | constKeyword
  | ifKeyword | elseKeyword | whileKeyword | breakKeyword | continueKeyword | returnKeyword
  | integerLiteral | floatLiteral
  | plus | minus | star | slash | percent
  | equal | notEqual | less | greater | lessEqual | greaterEqual
  | and | or | bang | assign
  | leftParen | rightParen | leftBracket | rightBracket | leftBrace | rightBrace
  | comma | semicolon
  | identifier
  | endOfInput
  deriving DecidableEq, Repr

structure Token where
  kind : TokenKind
  value : String
  span : Span
  deriving DecidableEq, Repr

namespace TokenKind

def keywords : List (String × TokenKind) :=
  [("int", .intKeyword), ("float", .floatKeyword), ("void", .voidKeyword),
    ("const", .constKeyword), ("if", .ifKeyword), ("else", .elseKeyword),
    ("while", .whileKeyword), ("break", .breakKeyword), ("continue", .continueKeyword),
    ("return", .returnKeyword)]

/-- The kind of a word: a keyword, or else a name. -/
def ofWord (word : String) : TokenKind := (keywords.lookup word).getD .identifier

def ofPair? : Char → Char → Option TokenKind
  | '=', '=' => some .equal
  | '!', '=' => some .notEqual
  | '<', '=' => some .lessEqual
  | '>', '=' => some .greaterEqual
  | '&', '&' => some .and
  | '|', '|' => some .or
  | _, _ => none

def ofChar? : Char → Option TokenKind
  | '+' => some .plus
  | '-' => some .minus
  | '*' => some .star
  | '/' => some .slash
  | '%' => some .percent
  | '<' => some .less
  | '>' => some .greater
  | '!' => some .bang
  | '=' => some .assign
  | '(' => some .leftParen
  | ')' => some .rightParen
  | '[' => some .leftBracket
  | ']' => some .rightBracket
  | '{' => some .leftBrace
  | '}' => some .rightBrace
  | ',' => some .comma
  | ';' => some .semicolon
  | _ => none

end TokenKind

def Token.describe (token : Token) : String := if token.kind = .endOfInput then "end of input" else s!"'{token.value}'"

end SysYTools
