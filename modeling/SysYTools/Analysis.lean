import SysYTools.Diagnostic.Explanation
import SysYTools.Rule.Book
import SysYTools.Settings
import SysYTools.Token.Scan
import SysYTools.Tree.Parser

/-!
The analysis of a program text: reading it, linking it and checking it. A text that cannot be read has
the problems of its reading as diagnostics and no program.
-/

namespace SysYTools

/-- The program that a text writes, or its lexical problems, or else its problems of grammar. -/
def CompUnit.ofText (file : String) (text : Text) : Except (List Report) CompUnit := do
  CompUnit.ofTokens file (← Token.scan file text)

structure Analysis where
  program : Option Program
  diagnostics : List Diagnostic

namespace CheckSettings

def select (settings : CheckSettings) (rulebook : Rulebook) : Rulebook :=
  if settings.unusedVariables.isGiven then rulebook else rulebook.without .usedLocals

def present (settings : CheckSettings) (table : ExplanationTable) (diagnostic : Diagnostic) : Diagnostic :=
  if settings.enrichMessages.isGiven then
    { diagnostic with message := table.enrichSafely diagnostic.message }
  else diagnostic

end CheckSettings

namespace Program

def ofUnit (unit : CompUnit) : Except Fault Program := do
  return { unit, linkage := ← unit.link.mapError (·.fault) }

def check (program : Program) (rulebook : Rulebook) (settings : CheckSettings)
    (table : ExplanationTable) : List Diagnostic :=
  (program.violations (settings.select rulebook)).map fun report => settings.present table (.ofReport report)

/-- The diagnostics of a program for the rules of a book that need not fit. -/
def checkFitting (program : Program) (rulebook : Rulebook) (settings : CheckSettings)
    (table : ExplanationTable) : Except Fault (List Diagnostic) :=
  if program.isFittedBy (settings.select rulebook) then
    .ok (program.check rulebook settings table)
  else .error .misplacedRule

end Program

/-- Analyses a text. It fails only where a number in it has too many digits. -/
def analyze (file : String) (text : Text) (settings : CheckSettings)
    (table : ExplanationTable) : Except Fault Analysis :=
  match CompUnit.ofText file text with
  | .error reports =>
    let diagnostics := reports.map fun report =>
      let diagnostic := Diagnostic.ofReport report
      settings.present table
        { diagnostic with category := table.categorySafely diagnostic.message }
    .ok { program := none, diagnostics }
  | .ok unit => do
    let program ← Program.ofUnit unit
    return { program := some program, diagnostics := program.check Rulebook.standard settings table }

end SysYTools
