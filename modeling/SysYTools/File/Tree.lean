import SysYTools.Fault
import SysYTools.File.Path
import SysYTools.Text.Lines

/-!
Files and directories as a value, with the directory from which paths are meant. Every tool that reads or
writes files works on such a value.
-/

namespace SysYTools

/-- The files by their steps from the root, and the directories that hold no file. -/
structure FileTree where
  files : List (List String × ByteArray)
  directories : List (List String)
  current : List String

namespace FileTree

def bytes? (tree : FileTree) (place : List String) : Option ByteArray := tree.files.lookup place

def isFile (tree : FileTree) (place : List String) : Bool := (tree.bytes? place).isSome

/-- A directory is the root, the current directory, a given directory, or above one of these or a
file. -/
def isDirectory (tree : FileTree) (place : List String) : Bool :=
  place.isEmpty || place.isPrefixOf tree.current || tree.directories.any (place.isPrefixOf ·) ||
    tree.files.any fun (file, _) => place.isPrefixOf file && place != file

/-- Whether each step of a path leads from a directory, so that the path can be followed. -/
def canFollow (tree : FileTree) (place : List String) : List String → Bool
  | [] => true
  | part :: rest => tree.isDirectory place && tree.canFollow (FilePath.follow place [part]) rest

def place? (tree : FileTree) (path : FilePath) : Option (List String) :=
  let start := if path.isAbsolute then [] else tree.current
  if tree.canFollow start path.parts then some (path.resolve tree.current) else none

def existsAt (tree : FileTree) (place : List String) : Bool := tree.isFile place || tree.isDirectory place

inductive Kind where
  | missing
  | file
  | directory
  deriving DecidableEq, Repr

def kind (tree : FileTree) (path : FilePath) : Kind :=
  match tree.place? path with
  | none => .missing
  | some place =>
    if tree.isFile place then .file
    else if tree.isDirectory place then .directory
    else .missing

/-- What stands at a path as it is written. An empty path leads nowhere, and a path that ends with a slash
leads to a directory. -/
def kindOf (tree : FileTree) (written : String) : Kind :=
  let kind := if written.isEmpty then .missing else tree.kind (FilePath.ofString written)
  if kind = .file && FilePath.endsInDirectory written then .missing else kind

def read (tree : FileTree) (path : FilePath) : Except Fault ByteArray :=
  match tree.place? path with
  | none => .error .noSuchFile
  | some place =>
    match tree.bytes? place with
    | some bytes => .ok bytes
    | none => .error (if tree.isDirectory place then .isDirectory else .noSuchFile)

/-- The text of a file, with every line end as one line feed. -/
def readText (tree : FileTree) (path : FilePath) : Except Fault Text := do
  match String.fromUTF8? (← tree.read path) with
  | some text => return Text.unifyFeeds text.toList
  | none => .error .notUtf8

def writeText (tree : FileTree) (path : FilePath) (text : Text) : FileTree :=
  let place := path.resolve tree.current
  let bytes := (String.ofList text).toUTF8
  { tree with
    files := tree.files.map fun entry => if entry.1 == place then (place, bytes) else entry }

/-- Lists of steps in the order of their first difference. A list comes before its extensions. -/
private def before : List String → List String → Bool
  | [], _ => true
  | _ :: _, [] => false
  | left :: lefts, right :: rights => left < right || (left == right && before lefts rights)

private def stepsTo (place : List String) : List (List String) := (List.range (place.length + 1)).map place.take

def places (tree : FileTree) : List (List String) :=
  (tree.files.map (·.1) ++ tree.directories.flatMap stepsTo ++
    tree.files.flatMap (fun file => stepsTo file.1)).eraseDups

/-- What stands below a directory and has a name with a given ending, in the order of the paths. -/
def search (tree : FileTree) (path : FilePath) (ending : String) : List FilePath :=
  match tree.place? path with
  | none => []
  | some place =>
    let steps := tree.places.filterMap fun found =>
      if place.isPrefixOf found && place != found && found.getLast?.any (·.endsWith ending) then
        some (found.drop place.length)
      else none
    (steps.mergeSort before).map fun steps => { path with parts := path.parts ++ steps }

def printedLines (tree : FileTree) (written : String) : Except Fault (List Text) := do
  let path := FilePath.ofString written
  if tree.kind path = .file then return (← tree.readText path).printedLines else return []

end FileTree

end SysYTools
