import SysYTools.Document.Basic

/-!
Edits of a document. Their ranges refer to the text before any of them is made, so they are made from
the last to the first.
-/

namespace SysYTools

structure Edit where
  range : Range
  newText : Text
  deriving DecidableEq, Repr

namespace Edit

def insert (position : Position) (newText : Text) : Edit :=
  { range := Range.point position, newText }

structure Splice where
  start : Nat
  stop : Nat
  newText : Text
  deriving DecidableEq, Repr

/-- The order in which edits are made: later starts first, and among equal starts later stops first. -/
def Splice.before (left right : Splice) : Bool :=
  right.start < left.start || (right.start == left.start && right.stop ≤ left.stop)

def toSplice (document : Document) (edit : Edit) : Splice :=
  { start := document.offsetAt edit.range.start
    stop := document.offsetAt edit.range.stop
    newText := edit.newText }

/-- Makes edits in a text. Edits with one range are made in the order in which they are given. -/
def applyAll (text : Text) (edits : List Edit) : Text :=
  let document : Document := { uri := "", text }
  ((edits.map (toSplice document)).mergeSort Splice.before).foldl
    (fun text splice => text.splice splice.start splice.stop splice.newText) text

end Edit

end SysYTools
