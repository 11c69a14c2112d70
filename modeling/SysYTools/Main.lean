import SysYTools.CommandLine.Run

/-!
The program. It reads the files that the words of the command line name, runs the tools on them, writes the
files that have changed, and prints what the tools say.
-/

namespace SysYTools

namespace Disk

def depthLimit : Nat := 64

def entry (path : String) : IO IO.FS.DirEntry := do
  return { root := ← IO.currentDir, fileName := path }

def isWanted (name : String) : Bool := name.endsWith CommandLine.sourceEnding || name == Settings.fileName

def load (tree : FileTree) (place : List String) (entry : IO.FS.DirEntry) : Nat → IO FileTree
  | 0 => return tree
  | depth + 1 => do
    if ← entry.path.isDir then
      let mut tree := { tree with directories := place :: tree.directories }
      for child in ← entry.path.readDir do
        if isWanted child.fileName || (← child.path.isDir) then
          tree ← load tree (place ++ [child.fileName]) child depth
      return tree
    else if (← entry.path.pathExists) && !tree.isFile place then
      return { tree with files := (place, ← IO.FS.readBinFile entry.path) :: tree.files }
    else return tree

def loadSettings (tree : FileTree) (place : List String) : IO FileTree := do
  let mut tree := tree
  for length in List.range place.length do
    let file := place.take length ++ [Settings.fileName]
    tree ← load tree file (← entry ("/" ++ "/".intercalate file)) 1
  return tree

def loadPath (tree : FileTree) (path : String) : IO FileTree := do
  let place := (FilePath.ofString path).resolve tree.current
  let tree ← load tree place (← entry path) depthLimit
  loadSettings tree place

/-- The files that the words of a command line name. If they name none, the current directory counts. -/
def read (words : List String) : IO FileTree := do
  let current := (FilePath.ofString (toString (← IO.currentDir))).parts
  let mut tree : FileTree := { files := [], directories := [], current }
  for word in words do
    if ← (← entry word).path.pathExists then tree ← loadPath tree word
  if tree.files.isEmpty then loadPath tree "." else return tree

def write (old new : FileTree) : IO Unit := do
  for (place, bytes) in new.files do
    if (old.bytes? place).map (·.data) != some bytes.data then
      IO.FS.writeBinFile ("/" ++ "/".intercalate place) bytes

end Disk

end SysYTools

open SysYTools in
def main (words : List String) : IO UInt32 := do
  let files ← Disk.read words
  let outcome := CommandLine.run files (← (← IO.getStdout).isTty) words
  Disk.write files outcome.files
  IO.print outcome.output
  IO.eprint outcome.errors
  if let some fault := outcome.fault then
    IO.eprintln s!"Error: {fault.message}"
  return outcome.exitCode.toUInt32
