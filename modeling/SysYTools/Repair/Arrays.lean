import SysYTools.Document.Edit
import SysYTools.Text.Bracket
import SysYTools.Text.Integer
import SysYTools.Text.Occurrence

/-!
Array sizes in raw text. The text need not be a program that can be read: a name with a number in
brackets counts as a declaration, and what stands between braces after the next equals sign as its
initializer.
-/

namespace SysYTools

namespace Repair

def sizeOf? (text name : Text) : Option (Text.Occurrence Text) := (text.occurrences (Text.readSizeOf name) 0).head?

def sizeValue (digits : Text) : Except Fault Int := Radix.decimal.readInt digits

def initializerBraces? (text : Text) (start : Nat) : Option (Nat × Nat × Nat) := do
  let sign ← text.find? '=' start
  let opening ← text.find? '\x7b' sign
  let closing ← text.closingIndex? opening
  return (sign, opening, closing)

/-- The elements of the first initializer at or after `start`. Nothing but white space stands between its
equals sign and its brace. -/
def initializerElements? (text : Text) (start : Nat) : Option (List Text) := do
  let (sign, opening, closing) ← initializerBraces? text start
  if (text.slice (sign + 1) opening).isAllBlank then
    return (text.slice (opening + 1) closing).splitCommas
  else none

structure Resizing where
  text : Text
  oldSize : Int
  newSize : Nat

def decimalText (number : Nat) : Text := (toString number).toList

def sizedName (name : Text) (size : Nat) : Text := name ++ '[' :: decimalText size ++ [']']

def resize (text name : Text) : Except Fault (Option Resizing) :=
  match sizeOf? text name with
  | none => .ok none
  | some found =>
    match initializerElements? text found.stop with
    | none => .ok none
    | some elements => do
      let oldSize ← sizeValue found.value
      if elements.length ≤ oldSize then return none
      else
        return some {
          text := text.splice found.start found.stop (sizedName name elements.length)
          oldSize
          newSize := elements.length }

def joinCommas (texts : List Text) : Text := [',', ' '].intercalate texts

def trim (text name : Text) : Except Fault (Option Text) :=
  match sizeOf? text name with
  | none => .ok none
  | some found => do
    let size ← sizeValue found.value
    match initializerBraces? text found.stop with
    | none => return none
    | some (_, opening, closing) =>
      let elements := (text.slice (opening + 1) closing).splitCommas
      if elements.length ≤ size then return none
      else return some (text.splice (opening + 1) closing (joinCommas (elements.take size.toNat)))

/-- The offsets of a declaration that starts on a line, up to and with its semicolon. -/
def declarationExtent (document : Document) (line : Nat) : Nat × Nat :=
  let start := document.offsetAt { line, character := 0 }
  match document.text.find? ';' start with
  | some semicolon => (start, semicolon + 1)
  | none => (start, document.text.length)

def declarationLine? (document : Document) (name : Text) (line : Int) : Option Nat :=
  let numbered := document.lines.zipIdx.take (line + 1).toNat
  (numbered.reverse.find? fun (text, _) => (sizeOf? text name).isSome).map (·.2)

def resizeEdit (document : Document) (name : Text) (line : Nat) : Except Fault (Option Edit) := do
  let (start, stop) := declarationExtent document line
  match ← resize (document.text.slice start stop) name with
  | none => return none
  | some resizing => return some { range := document.rangeOf start stop, newText := resizing.text }

/-! ## All arrays of a text -/

/-- The head of an array declaration with an initializer: its name, the digits of its size and its
further dimensions. -/
structure ArrayHead where
  name : Text
  digits : Text
  furtherDims : Text
  /-- The number of characters from the start of the further dimensions to the end of the head. -/
  tailLength : Nat

def readArrayHead : Text.Reader ArrayHead := fun text => do
  let (name, text) ← Text.readName text
  let (digits, text) ← Text.readSize text
  let afterDims := text.skipBrackets
  let rest ← Text.readMark '=' afterDims
  let rest ← Text.readMark '\x7b' rest
  return (
    { name, digits
      furtherDims := text.take (text.length - afterDims.length)
      tailLength := text.length - rest.length },
    rest)

structure SizeChange where
  name : Text
  oldSize : Int
  newSize : Nat

def sizeChange? (document : Document) (found : Text.Occurrence ArrayHead) :
    Except Fault (Option (Edit × SizeChange)) :=
  match document.text.closingIndex? (found.stop - 1) with
  | none => .ok none
  | some closing => do
    let count := (document.text.slice found.stop closing).splitCommas.length
    let head := found.value
    let oldSize ← sizeValue head.digits
    if count ≤ oldSize then return none
    else
      let stop := found.stop - head.tailLength + head.furtherDims.length
      return some (
        { range := document.rangeOf found.start stop
          newText := sizedName head.name count ++ head.furtherDims },
        { name := head.name, oldSize, newSize := count })

/-- Grows every array that is smaller than its initializer, and tells the changes. -/
def resizeAll (text : Text) : Except Fault (Text × List SizeChange) := do
  let document : Document := { uri := "", text }
  let changes ← (text.occurrences readArrayHead 0).mapM (sizeChange? document)
  let changes := changes.filterMap id
  return (Edit.applyAll text (changes.map (·.1)), changes.map (·.2))

end Repair

end SysYTools
