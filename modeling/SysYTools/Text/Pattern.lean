import SysYTools.Fault
import SysYTools.Text.Blank
import SysYTools.Text.Digit
import SysYTools.Text.Word

/-!
Patterns for messages: characters and classes of characters, each with a number of repetitions. A
pattern is matched by following all texts that can be left after each piece, so nothing depends on which
repetition is tried first.
-/

namespace SysYTools

namespace Pattern

inductive Class where
  | only (c : Char)
  | word
  | digit
  | blank
  /-- Every character but the line feed. -/
  | any
  deriving DecidableEq, Repr

def Class.has : Class → Char → Bool
  | .only expected, c => c == expected
  | .word, c => isWordChar c
  | .digit, c => isDecimalDigit c
  | .blank, c => isBlank c
  | .any, c => c != '\n'

inductive Repetition where
  | once
  | atMostOnce
  | atLeastOnce
  | anyNumber
  deriving DecidableEq, Repr

structure Piece where
  charClass : Class
  repetition : Repetition
  deriving DecidableEq, Repr

/-- The texts that can be left after any number of characters of a class. -/
def Class.restsAfterRun (charClass : Class) : Text → List Text
  | [] => [[]]
  | c :: rest => (c :: rest) :: if charClass.has c then restsAfterRun charClass rest else []

/-- The texts that can be left after one character of a class. -/
def Class.restsAfterOne (charClass : Class) : Text → List Text
  | [] => []
  | c :: rest => if charClass.has c then [rest] else []

def Piece.rests (piece : Piece) (text : Text) : List Text :=
  match piece.repetition with
  | .once => piece.charClass.restsAfterOne text
  | .atMostOnce => text :: piece.charClass.restsAfterOne text
  | .atLeastOnce => (piece.charClass.restsAfterOne text).flatMap piece.charClass.restsAfterRun
  | .anyNumber => piece.charClass.restsAfterRun text

end Pattern

abbrev Pattern := List Pattern.Piece

namespace Pattern

def startsWith (pattern : Pattern) (text : Text) : Bool :=
  !(pattern.foldl (fun rests piece => (rests.flatMap piece.rests).eraseDups) [text]).isEmpty

def occursIn (pattern : Pattern) : Text → Bool
  | [] => pattern.startsWith []
  | c :: rest => pattern.startsWith (c :: rest) || occursIn pattern rest

/-- The repetition that a text starts with, and what follows it. -/
def readRepetition : Text → Repetition × Text
  | '*' :: rest => (.anyNumber, rest)
  | '+' :: rest => (.atLeastOnce, rest)
  | '?' :: rest => (.atMostOnce, rest)
  | rest => (.once, rest)

private theorem length_readRepetition (text : Text) : (readRepetition text).2.length ≤ text.length := by
  unfold readRepetition
  split <;> simp

/-- The class that a text starts with, and what follows it. Groups and sets in brackets are not known. -/
def readClass? : Char → Text → Option (Class × Text)
  | '\\', 'w' :: rest => some (.word, rest)
  | '\\', 'd' :: rest => some (.digit, rest)
  | '\\', 's' :: rest => some (.blank, rest)
  | '\\', c :: rest => if isWordChar c then none else some (.only c, rest)
  | '.', rest => some (.any, rest)
  | c, rest => if ['\\', '[', '(', ')', '*', '+', '?'].contains c then none else some (.only c, rest)

private theorem length_readClass {c : Char} {text rest : Text} {charClass : Class}
    (found : readClass? c text = some (charClass, rest)) : rest.length ≤ text.length := by
  unfold readClass? at found
  split at found <;> grind

def ofText : Text → Except Fault Pattern
  | [] => .ok []
  | c :: text =>
    match _ : readClass? c text with
    | none => .error .badPattern
    | some (charClass, rest) => do
      let more ← ofText (readRepetition rest).2
      return { charClass, repetition := (readRepetition rest).1 } :: more
termination_by text => text.length
decreasing_by
  have := length_readClass ‹_›
  have := length_readRepetition rest
  simp only [List.length_cons]
  omega

end Pattern

end SysYTools
