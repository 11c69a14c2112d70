import SysYTools.CommandLine.Check
import SysYTools.Editor.Hover
import SysYTools.Tree.Listing

/-!
The command that shows the tree of a program, or what stands at a place.
-/

namespace SysYTools

namespace CommandLine

def splitColons (text : Text) : List Text :=
  text.foldr
    (fun c parts =>
      match parts with
      | [] => [[c]]
      | part :: more => if c = ':' then [] :: part :: more else (c :: part) :: more)
    [[]]

def place? (written : String) : Option (Int × Int) :=
  match splitColons written.toList with
  | [line, column] => do
    let line ← (Radix.decimal.readInt line).toOption
    let column ← (Radix.decimal.readInt column).toOption
    return (line, column)
  | _ => none

def describe (program : Program) (document : Document) (line column : Int) : Except Fault String := do
  let position ← Position.ofInts (line - 1) (column - 1)
  let text := (program.siteAt document position).bind (Hover.ofSite program.linkage)
  return text.getD "no information"

/-- Shows the tree of a file, or what stands at a place of it. A file that cannot be read as a program has
its problems printed. -/
def view (file : String) (place : Option String) : Task Unit := do
  let text ← Task.ofExcept ((← Task.files).readText (FilePath.ofString file))
  match CompUnit.ofText file text with
  | .error reports =>
    printDiagnostics { isColored := true } (reports.map .ofReport)
    throw (.exit 1)
  | .ok unit =>
    Task.logRedefinitions unit
    let program ← Task.ofExcept (Program.ofUnit unit)
    match place with
    | none => ((Node.unit unit).listing program.linkage 0).forM Task.print
    | some written =>
      match place? written with
      | none => throw (.usage .notPlace)
      | some (line, column) => Task.print (← Task.ofExcept (describe program { uri := file, text } line column))

end CommandLine

end SysYTools
