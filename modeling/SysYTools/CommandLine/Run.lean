import SysYTools.CommandLine.FixArrays
import SysYTools.CommandLine.View

/-!
A run of the tools from a command line: the options of the program, then a command with its own options
and arguments.
-/

namespace SysYTools

namespace CommandLine

def version : String := "sysy, version 0.1.0"

def programForms : List OptionForm :=
  [ { name := "--version", short := none, takesValue := false },
    { name := "--config", short := none, takesValue := true },
    { name := "--verbose", short := some 'v', takesValue := false } ]

def requirePath (argument path : String) : Task Unit := do
  if (← Task.files).kindOf path = .missing then throw (.usage (.notFound argument "Path" path))

def requireFile (argument path : String) : Task Unit := do
  match (← Task.files).kindOf path with
  | .missing => throw (.usage (.notFound argument "File" path))
  | .directory => throw (.usage (.isDirectory argument "File" path))
  | .file => pure ()

/-- The options and operands of a command that has one option. -/
def commandWords (option : String) (takesValue : Bool) (words : List String) : Task Words :=
  Task.ofUsage (readWords [{ name := option, short := none, takesValue }] false words)

def onlyFile (operands : List String) : Task String := do
  match operands with
  | [] => throw (.usage (.missingArgument "FILE"))
  | file :: rest =>
    requireFile "FILE" file
    if rest.isEmpty then return file else throw (.usage (.extraArguments rest))

def runCommand (explicit : Option String) (name : String) (words : List String) : Task Unit := do
  let paths := "[PATHS]..."
  match name with
  | "check" =>
    let words ← commandWords "--no-color" false words
    words.operands.forM (requirePath paths)
    check explicit words.operands (words.hasOption "--no-color")
  | "fix-arrays" =>
    let words ← commandWords "--check" false words
    words.operands.forM (requirePath paths)
    fixArrays words.operands (words.hasOption "--check")
  | "view" =>
    let words ← commandWords "--at" true words
    view (← onlyFile words.operands) (words.value? "--at")
  | name => throw (.usage (.noSuchCommand name))

def task (words : List String) : Task Unit := do
  let words ← Task.ofUsage (readWords programForms true words)
  if words.hasOption "--version" then Task.print version
  else
    let explicit := words.value? "--config"
    explicit.forM (requireFile "--config")
    modify fun console => { console with isVerbose := words.hasOption "--verbose" }
    match words.operands with
    | [] => throw (.usage .missingCommand)
    | name :: rest => runCommand explicit name rest

structure Outcome where
  exitCode : Nat
  output : String
  errors : String
  files : FileTree
  fault : Option Fault

def run (files : FileTree) (isColored : Bool) (words : List String) : Outcome :=
  let start : Console := { files, output := "", errors := "", isColored, isVerbose := false }
  let (result, console) := (task words).run.run start
  let outcome : Outcome :=
    { exitCode := 0, output := console.output, errors := console.errors, files := console.files
      fault := none }
  match result with
  | .ok _ => outcome
  | .error (.exit code) => { outcome with exitCode := code }
  | .error (.usage error) =>
    { outcome with exitCode := 2, errors := console.errors ++ s!"Error: {error.message}\n" }
  | .error (.fault fault) => { outcome with exitCode := 1, fault := some fault }

end CommandLine

end SysYTools
