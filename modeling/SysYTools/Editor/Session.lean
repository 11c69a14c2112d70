import SysYTools.Command.Run
import SysYTools.Editor.Outline
import SysYTools.File.Uri
import SysYTools.Fix.Menu
import SysYTools.Index
import SysYTools.Settings.Load

/-!
A session with an editor. The editor opens and changes documents and asks about them; every answer comes
from a fresh analysis of the text of that time. The session keeps the documents, the notices that were sent
last and the actions that were offered last.
-/

namespace SysYTools

structure Session where
  files : FileTree
  documents : List (String × Text)
  published : List Notice
  offered : List Action

namespace Session

def start (files : FileTree) : Session :=
  { files, documents := [], published := [], offered := [] }

/-- A document by its name. One that is not open is read from its file. -/
def document (session : Session) (uri : String) : Except Fault Document :=
  match session.documents.lookup uri with
  | some text => .ok { uri, text }
  | none =>
    match (Uri.ofString uri).filePath? with
    | some path => do return { uri, text := ← session.files.readText path }
    | none => .error .noSuchFile

/-- The settings for a document. A document that is no file has those of the current directory. -/
def settings (session : Session) (uri : String) : Except Fault Settings :=
  let isFile := (Uri.fileScheme ++ [':']).isPrefixOf uri.toList
  Settings.forPath session.files (if isFile then (Uri.ofString uri).filePath? else none)

def analysis (session : Session) (uri : String) : Except Fault (Option Analysis × List Notice) := do
  let document ← session.document uri
  document.analyze (← session.settings uri)

def update (session : Session) (uri : String) (text : Text) : Session × Except Fault Unit :=
  let others := session.documents.filter (·.1 != uri)
  let session := { session with documents := (uri, text) :: others }
  match session.analysis uri with
  | .ok (_, notices) => ({ session with published := notices }, .ok ())
  | .error fault => (session, .error fault)

def close (session : Session) (uri : String) : Session :=
  { session with documents := session.documents.filter (·.1 != uri), published := [] }

private def program? (session : Session) (uri : String) : Except Fault (Option Program) := do
  return (← session.analysis uri).1.bind (·.program)

def hover (session : Session) (uri : String) (position : Position) : Except Fault (Option Hover) := do
  match ← session.program? uri with
  | none => return none
  | some program => program.hover (← session.document uri) position

def definition (session : Session) (uri : String) (position : Position) :
    Except Fault (Option Range) := do
  match ← session.program? uri with
  | none => return none
  | some program => program.definition (← session.document uri) position

def outline (session : Session) (uri : String) : Except Fault (List OutlineEntry) := do
  match ← session.program? uri with
  | none => return []
  | some program => program.unit.outline

/-- Offers actions for a selection and for those of the sent notices whose places are chosen. -/
def offer (session : Session) (uri : String) (selection : Range) (isChosen : Nat → Bool) :
    Session × Except Fault (List Action) :=
  let chosen := session.published.zipIdx.filter fun (_, number) => isChosen number
  let actions : Except Fault (List Action) := do
    let settings ← session.settings uri
    Menu.actions .standard settings.refactor (← session.document uri) (chosen.map (·.1)) (some selection) false
  match actions with
  | .error fault => (session, .error fault)
  | .ok actions =>
    let actions := actions.map fun action =>
      { action with notice := action.notice.bind fun number => (chosen[number]?).map (·.2) }
    ({ session with offered := actions }, .ok actions)

/-! ## Commands -/

/-- Whether a fault comes from what a command was given, so that the command does nothing. -/
def isBadRequest : Fault → Bool
  | .notInteger | .tooManyDigits _ | .outOfRange _ _ | .missingField _ | .wrongKind
  | .unknownWord _
  | .missingArgument | .unknownCommand _ | .badSettings | .notUtf8 | .noSuchItem => true
  | .notName | .noSuchKind _ | .misplacedRule | .badPattern | .lastScope | .notTable | .noSettings | .isDirectory | .noSuchFile => false

/-- The arguments of a command. Some editors send them as one list. -/
def commandArguments : List Value → List Value
  | [.list arguments] => arguments
  | arguments => arguments

/-- Why a value that is no text names no document. A value that is not given stands for an empty name. -/
def nameFault : Value → Fault
  | .list _ | .record _ => .wrongKind
  | value => if value.isGiven then .notName else .noSuchFile

def command (session : Session) (name : String) (words : List Value) :
    Except Fault (Option (String × List Edit)) :=
  let arguments := commandArguments words
  match arguments with
  | [] => .ok none
  | .text uri :: _ => do
    let document ← session.document uri
    let result : Except Fault (List Edit) := do
      Command.run (← session.settings uri) name arguments document.text
    match result with
    | .ok [] => return none
    | .ok edits => return some (uri, edits)
    | .error fault => if isBadRequest fault then return none else .error fault
  | value :: _ => .error (nameFault value)

/-- The edits of an action: its own, or those that its command asks for. -/
def actionEdits (session : Session) (action : Action) : Except Fault (List Edit) :=
  match action.effect with
  | .nothing => .ok []
  | .edits _ edits => .ok edits
  | .command command => do
    match ← session.command command.kind.name command.arguments with
    | some (_, edits) => return edits
    | none => return []

/-- Makes an action that was offered. The document has the new text afterwards. -/
def perform (session : Session) (uri : String) (number : Int) : Session × Except Fault Text :=
  match Index.get session.offered number with
  | .error fault => (session, .error fault)
  | .ok action =>
    let changed : Except Fault Text := do
      let document ← session.document uri
      return Edit.applyAll document.text (← session.actionEdits action)
    match changed with
    | .error fault => (session, .error fault)
    | .ok text =>
      let (session, result) := session.update uri text
      (session, result.map fun _ => text)

end Session

end SysYTools
