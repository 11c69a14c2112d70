import SysYTools.Value

/-!
Settings of the tools. A settings file may give any value for a setting, and it is taken as it is; what
a value of an unusual kind does is up to the tool that uses it.
-/

namespace SysYTools

structure CheckSettings where
  enrichMessages : Value := .bool true
  unusedVariables : Value := .bool true
  deriving Repr

structure ServerSettings where
  /-- The name under which diagnostics are sent to an editor. -/
  source : Value := .text "sysy"
  deriving Repr

structure RefactorSettings where
  variableName : Value := .text "temp_var"
  functionName : Value := .text "extracted"
  deriving Repr

structure Settings where
  check : CheckSettings := {}
  server : ServerSettings := {}
  refactor : RefactorSettings := {}
  deriving Repr

namespace Settings

private def section? (data : Value) (name : String) : Except Fault (Option Value) :=
  match data.field? name with
  | none => .ok none
  | some (.record fields) => .ok (some (.record fields))
  | some _ => .error .notTable

private def setting (data : Value) (name : String) (standard : Value) : Value := (data.field? name).getD standard

/-- The settings that a settings file gives. What it leaves out has its standard value. -/
def ofValue (data : Value) : Except Fault Settings := do
  let check : CheckSettings :=
    match ← section? data "check" with
    | none => {}
    | some table => {
        enrichMessages := setting table "enrich_messages" (.bool true)
        unusedVariables := setting table "unused_variables" (.bool true) }
  let server : ServerSettings :=
    match ← section? data "server" with
    | none => {}
    | some table => { source := setting table "source" (.text "sysy") }
  let refactor : RefactorSettings :=
    match ← section? data "refactor" with
    | none => {}
    | some table => {
        variableName := setting table "extract_variable_name" (.text "temp_var")
        functionName := setting table "extract_function_name" (.text "extracted") }
  return { check, server, refactor }

end Settings

end SysYTools
