/-!
Text is a list of characters, so that every offset, length and column counts characters. The module
holds the searches and cuts that the rest of the library makes in raw text.
-/

namespace SysYTools

abbrev Text := List Char

/-- Whether a number lies in a run, where a table gives the lengths of the stretches before, in and between the
runs. -/
def isInRuns : List Nat → Nat → Bool
  | outside :: inside :: lengths, number =>
    outside ≤ number && (number < outside + inside || isInRuns lengths (number - (outside + inside)))
  | _, _ => false

namespace Text

/-- The characters from `start` up to and without `stop`. It is empty when `stop ≤ start`. -/
def slice (text : Text) (start stop : Nat) : Text := (text.drop start).take (stop - start)

def splice (text : Text) (start stop : Nat) (replacement : Text) : Text :=
  text.take start ++ replacement ++ text.drop stop

def hasPart (text part : Text) : Bool :=
  match text with
  | [] => part.isEmpty
  | c :: rest => part.isPrefixOf (c :: rest) || hasPart rest part

def find? (text : Text) (target : Char) (start : Nat) : Option Nat :=
  ((text.drop start).findIdx? (· == target)).map (start + ·)

def lineStart (text : Text) (offset : Nat) : Nat := offset - ((text.take offset).reverse.takeWhile (· != '\n')).length

end Text

end SysYTools
