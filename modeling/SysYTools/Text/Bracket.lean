import SysYTools.Fault
import SysYTools.Text.Blank

/-!
Brackets in raw text, which need not be a program. Finding the partner of a bracket skips comments;
splitting at the top level does not.
-/

namespace SysYTools

def closingBracket? : Char → Option Char
  | '(' => some ')'
  | '[' => some ']'
  | '\x7b' => some '\x7d'
  | _ => none

def isOpeningBracket (c : Char) : Bool := (closingBracket? c).isSome

def isClosingBracket (c : Char) : Bool := c == ')' || c == ']' || c == '\x7d'

namespace Text

inductive BracketMode where
  | code
  | lineComment
  | blockComment
  deriving DecidableEq, Repr

inductive BracketStep where
  /-- These closing brackets are still to come, the next one first. -/
  | awaiting (stack : List Char)
  /-- The last open bracket is closed. -/
  | closed
  /-- A closing bracket has no partner or the wrong one. -/
  | crossed
  deriving DecidableEq, Repr

def bracketStep (stack : List Char) (c : Char) : BracketStep :=
  match closingBracket? c with
  | some closing => .awaiting (closing :: stack)
  | none =>
    if isClosingBracket c then
      match stack with
      | [] => .crossed
      | closing :: more => if c ≠ closing then .crossed else if more.isEmpty then .closed else .awaiting more
    else .awaiting stack

/-- The index at which the last open bracket closes. The stack holds the brackets that are still to
come, the next one first. -/
def closeFrom : BracketMode → List Char → Nat → Text → Option Nat
  | _, _, _, [] => none
  | .lineComment, stack, index, c :: rest =>
    closeFrom (if c = '\n' then .code else .lineComment) stack (index + 1) rest
  | .blockComment, stack, index, '*' :: '/' :: rest => closeFrom .code stack (index + 2) rest
  | .blockComment, stack, index, _ :: rest => closeFrom .blockComment stack (index + 1) rest
  | .code, stack, index, '/' :: '/' :: rest => closeFrom .lineComment stack (index + 2) rest
  | .code, stack, index, '/' :: '*' :: rest => closeFrom .blockComment stack (index + 2) rest
  | .code, stack, index, c :: rest =>
    match bracketStep stack c with
    | .awaiting stack => closeFrom .code stack (index + 1) rest
    | .closed => some index
    | .crossed => none

/-- The index of the bracket that closes the one at `start`. There is none if brackets of different kinds
cross, or if the text ends before. -/
def closingIndex? (text : Text) (start : Nat) : Option Nat := closeFrom .code [] start (text.drop start)

def startsWithComment : Text → Bool
  | '/' :: '/' :: _ | '/' :: '*' :: _ => true
  | _ => false

/-- The search behind the first end of a block comment in a text. -/
def closeAfterComment (text : Text) (stack : List Char) : Option Nat := closeFrom .blockComment stack 0 text

/-- The search in the last characters of a text, which are counted back from its end. It goes on at the
start of the text, unless a comment is met: from there on the search is an ordinary one. An opening mark
of a block comment at the very end is closed by the first closing mark of the text. -/
def closeAround (text : Text) (stack : List Char) : Text → Option Int
  | [] => (closeFrom .code stack 0 text).map Int.ofNat
  | ['/', '*'] => (closeAfterComment text stack).map Int.ofNat
  | c :: rest =>
    if startsWithComment (c :: rest) then
      (closeFrom .code stack (text.length - (rest.length + 1)) (c :: rest)).map Int.ofNat
    else
      match bracketStep stack c with
      | .awaiting stack => closeAround text stack rest
      | .closed => some (-(rest.length + 1))
      | .crossed => none

/-- The index of the bracket that closes the one at an index, which may be counted back from the end. Only
a comment at the start of the text can be met from an index before it. -/
def closingIndexAt (text : Text) (start : Int) : Except Fault (Option Int) :=
  if 0 ≤ start then .ok ((text.closingIndex? start.toNat).map Int.ofNat)
  else if -text.length ≤ start then .ok (closeAround text [] (text.drop (start + text.length).toNat))
  else
    match text with
    | '/' :: '/' :: _ => .ok ((closeFrom .code [] 0 text).map Int.ofNat)
    | '/' :: '*' :: _ => .ok ((closeAfterComment text []).map Int.ofNat)
    | _ => .error .noSuchItem

/-- The parts of a text between separators that are in no bracket. There is at least one. -/
def partsAt (isSeparator : Char → Bool) (depth : Int) : Text → List Text
  | [] => [[]]
  | c :: rest =>
    let depth :=
      if isOpeningBracket c then depth + 1
      else if isClosingBracket c then depth - 1
      else depth
    if isSeparator c && depth == 0 then
      [] :: partsAt isSeparator depth rest
    else
      match partsAt isSeparator depth rest with
      | [] => [[c]]
      | part :: more => (c :: part) :: more

/-- The parts of a text between separators that are in no bracket, without white space around them. A
blank text has no parts. -/
def splitTopLevel (text : Text) (isSeparator : Char → Bool) : List Text :=
  match (text.partsAt isSeparator 0).map (·.strip) with
  | [[]] => []
  | parts => parts

def splitCommas (text : Text) : List Text := text.splitTopLevel (· == ',')

end Text

end SysYTools
