import SysYTools.Document.Edit
import SysYTools.Value

/-!
Actions that an editor offers. An action either holds its edits or names a command, which makes them
later from the text of that time. Commands travel through the editor, so their arguments are plain
values.
-/

namespace SysYTools

inductive CommandKind where
  | fixArraySize
  | adjustParameters
  | addReturn
  | extractFunction
  | genericFix
  deriving DecidableEq, Repr

namespace CommandKind

def name : CommandKind → String
  | .fixArraySize => "sysy.fixArraySize"
  | .adjustParameters => "sysy.adjustParameters"
  | .addReturn => "sysy.addReturnStatement"
  | .extractFunction => "sysy.extractFunction"
  | .genericFix => "sysy.genericFix"

def all : List CommandKind := [.fixArraySize, .adjustParameters, .addReturn, .extractFunction, .genericFix]

def ofName? (name : String) : Option CommandKind := all.find? (·.name == name)

end CommandKind

structure Command where
  kind : CommandKind
  title : String
  arguments : List Value
  deriving Repr

inductive ActionKind where
  | quickFix
  | extraction
  deriving DecidableEq, Repr

def ActionKind.name : ActionKind → String
  | .quickFix => "quickfix"
  | .extraction => "refactor.extract"

inductive Effect where
  | nothing
  /-- Edits of the document with a name. -/
  | edits (uri : String) (edits : List Edit)
  | command (command : Command)
  deriving Repr

structure Action where
  title : String
  kind : Option ActionKind
  /-- The place in the request of the notice that the action answers. -/
  notice : Option Nat
  effect : Effect
  deriving Repr

/-! ## Ranges as values -/

def Position.toValue (position : Position) : Value :=
  .record [("line", .int position.line), ("character", .int position.character)]

/-- The position that a value stands for. Both coordinates are read before they are checked. -/
def Position.ofValue (value : Value) : Except Fault Position := do
  let line ← (← value.field "line").toInt
  let character ← (← value.field "character").toInt
  Position.ofInts line character

namespace Range

def toValue (range : Range) : Value := .record [("start", range.start.toValue), ("end", range.stop.toValue)]

/-- The range that a value stands for. Both ends have to be there before one of them is read. -/
def ofValue (value : Value) : Except Fault Range := do
  let start ← value.field "start"
  let stop ← value.field "end"
  return { start := ← Position.ofValue start, stop := ← Position.ofValue stop }

end Range

end SysYTools
