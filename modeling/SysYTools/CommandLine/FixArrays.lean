import SysYTools.CommandLine.Check
import SysYTools.Repair.Arrays

/-!
The command that grows arrays which are smaller than their initializers.
-/

namespace SysYTools

namespace CommandLine

/-- Grows the arrays of a file, or only tells what would be done. The result is whether there is something
to do. -/
def fixFile (isDry : Bool) (file : FilePath) : Task Bool := do
  let tree ← Task.files
  let text ← Task.ofExcept (tree.readText file)
  let (fixed, changes) ← Task.ofExcept (Repair.resizeAll text)
  let verb := if isDry then "would resize" else "resized"
  changes.forM fun change => do
    let name := String.ofList change.name
    Task.print s!"{file.toString}: {verb} {name}[{change.oldSize}] -> {name}[{change.newSize}]"
  if !changes.isEmpty && !isDry then
    modify fun console => { console with files := console.files.writeText file fixed }
  return !changes.isEmpty

def fixArrays (paths : List String) (isDry : Bool) : Task Unit := do
  match sourceFiles (← Task.files) paths with
  | [] => Task.printError s!"no {sourceEnding} files found"
  | files =>
    let results ← files.mapM (fixFile isDry)
    if isDry && results.any id then throw (.exit 1)

end CommandLine

end SysYTools
