import SysYTools.Editor.Notice
import SysYTools.Fix.Action
import SysYTools.Text.Occurrence

/-!
A request for a fix is a notice together with the document of now. What a fix needs to know stands in the
data of the notice; where that is missing, it is read from the message.
-/

namespace SysYTools

structure Request where
  document : Document
  notice : Notice
  /-- The place of the notice among the notices of the editor. -/
  number : Nat

abbrev Resolver := Request → Except Fault (Option Action)

namespace Request

variable (request : Request)

def range : Range := request.notice.range

def startLine : Nat := request.range.start.line

def text : Text := request.document.textIn request.range

def payload (field : String) : Value := (request.notice.data.field? field).getD .null

def messagePart? (read : Text.Reader Text) : Option Text := Text.search? request.notice.message.toList read

def given (field : String) (read : Text.Reader Text) : Value :=
  let value := request.payload field
  if value.isGiven then value
  else
    match request.messagePart? read with
    | some part => .text (String.ofList part)
    | none => .null

def name? (field : String) (read : Text.Reader Text) : Option String :=
  match request.given field read with
  | .null => none
  | value => some value.display

def count? (field : String) (read : Text.Reader Text) : Except Fault (Option Int) :=
  match request.payload field with
  | .null =>
    match request.messagePart? read with
    | some digits => do return some (← Radix.decimal.readInt digits)
    | none => .ok none
  | value => do return some (← value.toInt)

def edits (title : String) (edits : List Edit) : Action :=
  { title, kind := some .quickFix, notice := some request.number
    effect := .edits request.document.uri edits }

def replace (title : String) (range : Range) (newText : String) : Action :=
  request.edits title [{ range, newText := newText.toList }]

def command (title : String) (kind : CommandKind) (arguments : List Value) : Action :=
  { title, kind := some .quickFix, notice := some request.number
    effect := .command { kind, title, arguments := .text request.document.uri :: arguments } }

end Request

/-! ## What messages tell -/

namespace MessagePart

open Text

def quotedName : Reader Text := fun text => do
  let text ← readExactly ['\''] text
  let (name, text) ← readName text
  return (name, ← readExactly ['\''] text)

private def skipQuote (text : Text) : Text := (readExactly ['\''] text).getD text

def arrayName : Reader Text := fun text => do
  let text ← readExactly "array ".toList text
  let (name, text) ← readName (skipQuote text)
  return (name, ← readExactly " has more".toList (skipQuote text))

def expectedCount : Reader Text := fun text => do
  let text ← readExactly "Expected ".toList text
  let (digits, text) ← readDigits text
  return (digits, ← readExactly " argument".toList text)

def actualCount : Reader Text := fun text => do
  readDigits (← readExactly "passes ".toList text)

def jumpKeyword : Reader Text := fun text => do
  let text ← readExactly ['\''] text
  let keyword ← ["break".toList, "continue".toList].find? (·.isPrefixOf text)
  return (keyword, ← readExactly ['\''] (text.drop keyword.length))

def returnType : Reader Text := fun text => do
  readWord (← readExactly "return type ".toList text)

def initializerShape : Reader Text := fun text => do
  let text ← readExactly "expects a".toList text
  let text := (readExactly ['n'] text).getD text
  let (shape, text) ← readWord (← readExactly [' '] text)
  return (shape, ← readExactly " initializer".toList text)

def missingBracket : Reader Text := fun text => do
  match ← readExactly "missing '".toList text with
  | bracket :: '\'' :: rest => if "()[]\x7b\x7d".toList.contains bracket then some ([bracket], rest) else none
  | _ => none

end MessagePart

end SysYTools
