import SysYTools.CommandLine.Options
import SysYTools.File.Tree
import SysYTools.Scope.Linkage

/-!
What a run of a tool can see and change: the files, and two streams of text. A run ends early with an exit
code, an error of usage or a fault; what it has written and changed until then stays.
-/

namespace SysYTools

structure Console where
  files : FileTree
  output : String
  errors : String
  isColored : Bool
  isVerbose : Bool

inductive Ending where
  | exit (code : Nat)
  | usage (error : UsageError)
  | fault (fault : Fault)
  deriving DecidableEq, Repr

abbrev Task := ExceptT Ending (StateM Console)

/-! ## Terminal codes -/

namespace Text

def isCodeParameter (c : Char) : Bool := '0' ≤ c && c ≤ '?'

/-- Characters that can stand between the parameters and the end of a terminal code. -/
def isCodeIntermediate (c : Char) : Bool := ' ' ≤ c && c ≤ '/'

def isCodeFinal (c : Char) : Bool := '@' ≤ c && c ≤ '~'

/-- The number of characters after an escape character that belong to its terminal code: a bracket, any
number of parameters and of intermediate characters, and the character that ends the code. -/
def terminalCodeLength? : Text → Option Nat
  | '[' :: rest =>
    let parameters := rest.takeWhile isCodeParameter
    let rest := rest.dropWhile isCodeParameter
    let intermediates := rest.takeWhile isCodeIntermediate
    if (rest.dropWhile isCodeIntermediate).head?.any isCodeFinal then
      some (parameters.length + intermediates.length + 2)
    else none
  | _ => none

/-- The text without terminal codes, where the first `skipped` characters are left out. -/
def dropTerminalCodes (skipped : Nat) : Text → Text
  | [] => []
  | c :: rest =>
    match skipped with
    | skipped + 1 => dropTerminalCodes skipped rest
    | 0 =>
      if c = '\x1b' then
        match terminalCodeLength? rest with
        | some length => dropTerminalCodes length rest
        | none => c :: dropTerminalCodes 0 rest
      else c :: dropTerminalCodes 0 rest

end Text

namespace Task

def line (console : Console) (text : String) : String :=
  if console.isColored then text ++ "\n"
  else String.ofList (Text.dropTerminalCodes 0 text.toList) ++ "\n"

def print (text : String) : Task Unit :=
  modify fun console => { console with output := console.output ++ line console text }

def printError (text : String) : Task Unit :=
  modify fun console => { console with errors := console.errors ++ line console text }

def log (part text : String) : Task Unit :=
  modify fun console =>
    if console.isVerbose then
      { console with errors := console.errors ++ s!"DEBUG:sysy.{part}:{text}\n" }
    else console

def logRedefinitions (unit : CompUnit) : Task Unit :=
  unit.redefinitions.forM fun lost =>
    log "linker" s!"'{lost.name}' already defined at {lost.first.label}; keeping the first"

def ofExcept {α : Type} (result : Except Fault α) : Task α :=
  match result with
  | .ok value => pure value
  | .error fault => throw (.fault fault)

def ofUsage {α : Type} (result : Except UsageError α) : Task α :=
  match result with
  | .ok value => pure value
  | .error error => throw (.usage error)

def files : Task FileTree := return (← get).files

end Task

end SysYTools
