import SysYTools.Document.Basic
import SysYTools.Text.Occurrence
import SysYTools.Tree.Node

/-!
What a selection of text means in a program: some whole statements of a block, or one expression.
-/

namespace SysYTools

def Document.offsetsOf (document : Document) (span : Span) : Nat × Nat :=
  (document.offsetAt { line := (span.startLine - 1).toNat, character := (span.startColumn - 1).toNat },
    document.offsetAt { line := (span.endLine - 1).toNat, character := span.endColumn.toNat })

/-- The text between two offsets of a document. It starts and ends with a character that is no white
space. -/
structure Selection where
  document : Document
  start : Nat
  stop : Nat

namespace Selection

def ofRange? (document : Document) (range : Range) : Option Selection :=
  let text := document.textIn range
  if text.isAllBlank then none
  else
    some {
      document
      start := document.offsetAt range.start + (text.length - text.stripLeft.length)
      stop := document.offsetAt range.stop - (text.length - text.stripRight.length) }

variable (selection : Selection)

def text : Text := selection.document.text.slice selection.start selection.stop

def covers (span : Span) : Bool :=
  let (start, stop) := selection.document.offsetsOf span
  selection.start ≤ start && stop ≤ selection.stop

def isWithin (span : Span) : Bool :=
  let (start, stop) := selection.document.offsetsOf span
  start ≤ selection.start && selection.stop ≤ stop

def isAt (span : Span) : Bool := selection.document.offsetsOf span == (selection.start, selection.stop)

def isBlockItem (site : Node.Site) : Bool :=
  match site.parent? with
  | some (.stmt (.block _ span)) => !selection.covers span
  | _ => false

def isAssigned (site : Node.Site) : Bool :=
  match site.parent? with
  | some (.stmt (.assign _ _ targetSpan _ _)) => site.node.span == targetSpan
  | _ => false

def expressionAt? (site : Node.Site) : Option Expr :=
  match site.node with
  | .expr expression => if selection.isAt expression.span && !isAssigned site then some expression else none
  | _ => none

private def readLeavingKeyword : Text.Reader Unit := fun text => do
  let keyword ← ["return".toList, "break".toList, "continue".toList].find? (·.isPrefixOf text)
  let rest := text.drop keyword.length
  if rest.head?.any isWordChar then none else some ((), rest)

/-- Whether the selected text names a statement that leaves a loop or a function, in a comment or not. -/
def mayLeave : Bool := !(selection.text.occurrences readLeavingKeyword 0).isEmpty

def isFilledBy (items : List Node.Site) : Bool :=
  let offsets := items.map fun site => selection.document.offsetsOf site.node.span
  (offsets.head?.map (·.1)) == some selection.start && (offsets.map (·.2)).max? == some selection.stop

inductive Part where
  | statements
  | expression (expression : Expr)

def part? (func : FuncDef) : Option Part :=
  let covered := ((Node.stmt func.block).sites.drop 1).filter fun site => selection.covers site.node.span
  match covered.filter selection.isBlockItem with
  | [] => (covered.findSome? selection.expressionAt?).map .expression
  | items => if selection.isFilledBy items && !selection.mayLeave then some .statements else none

end Selection

end SysYTools
