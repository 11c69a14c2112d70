import SysYTools.Analysis
import SysYTools.CommandLine.Console
import SysYTools.Diagnostic.Render
import SysYTools.Settings.Load

/-!
The command that checks files and prints their diagnostics.
-/

namespace SysYTools

namespace CommandLine

def sourceEnding : String := ".sy"

/-- The files that paths mean. A directory means the program files below it, and no path means the current
directory. -/
def sourceFiles (tree : FileTree) (paths : List String) : List FilePath :=
  let paths := if paths.isEmpty then ["."] else paths
  (paths.map FilePath.ofString).flatMap fun path =>
    if tree.kind path = .directory then tree.search path sourceEnding else [path]

def settingsFor (tree : FileTree) (explicit : Option String) (file : FilePath) :
    Except Fault Settings :=
  match explicit with
  | some path => Settings.load tree (FilePath.ofString path)
  | none => Settings.forPath tree (some file)

def printDiagnostics (palette : Diagnostic.Palette) (diagnostics : List Diagnostic) : Task Unit :=
  diagnostics.forM fun diagnostic => do
    let tree ← Task.files
    Task.printError (← Task.ofExcept (diagnostic.render palette tree.printedLines))

structure Tally where
  errors : Nat
  warnings : Nat

def Tally.add (tally : Tally) (diagnostics : List Diagnostic) : Tally :=
  { errors := tally.errors + diagnostics.countP (·.severity == .error)
    warnings := tally.warnings + diagnostics.countP (·.severity == .warning) }

def checkFile (palette : Diagnostic.Palette) (explicit : Option String) (file : FilePath) :
    Task (List Diagnostic) := do
  let tree ← Task.files
  let settings ← Task.ofExcept (settingsFor tree explicit file)
  let text ← Task.ofExcept (tree.readText file)
  match CompUnit.ofText file.toString text with
  | .ok unit => Task.logRedefinitions unit
  | .error _ => pure ()
  let analysis ← Task.ofExcept (analyze file.toString text settings.check .standard)
  if analysis.program.isSome then
    Task.log "checker" s!"{file.toString}: {analysis.diagnostics.length} diagnostic(s)"
  printDiagnostics palette analysis.diagnostics
  return analysis.diagnostics

def check (explicit : Option String) (paths : List String) (isPlain : Bool) : Task Unit := do
  match sourceFiles (← Task.files) paths with
  | [] => Task.printError s!"warning: no {sourceEnding} files found"
  | files =>
    let palette : Diagnostic.Palette := { isColored := !isPlain }
    let tally ← files.foldlM
      (fun (tally : Tally) file => do return tally.add (← checkFile palette explicit file))
      { errors := 0, warnings := 0 }
    Task.print s!"checked {files.length} file(s): {tally.errors} error(s), {tally.warnings} warning(s)"
    if tally.errors ≠ 0 then throw (.exit 1)

end CommandLine

end SysYTools
