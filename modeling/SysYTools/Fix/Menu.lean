import SysYTools.Fix.Table

/-!
The actions that an editor offers for a list of notices and a selection: the fixes of the notices, or an
attempt at the first notice if there are none, and the extractions of the selected text.
-/

namespace SysYTools

namespace Menu

def genericFix (request : Request) : Action :=
  request.command "Try to fix this problem" .genericFix [request.range.toValue]

def fixes (table : FixTable) (document : Document) (notices : List Notice) : List Action :=
  let requests := notices.zipIdx.map fun (notice, number) => { document, notice, number : Request }
  match requests.flatMap table.actions, requests with
  | [], request :: _ => [genericFix request]
  | actions, _ => actions

def looksFloat : Text → Bool
  | [] => false
  | c :: rest => startsFloat (c :: rest) || looksFloat rest
where
  startsFloat : Text → Bool
    | '.' :: digit :: _ => isDecimalDigit digit
    | digit :: mark :: rest =>
      isDecimalDigit digit && (mark == 'e' || mark == 'E') &&
        match rest with
        | '+' :: after :: _ | '-' :: after :: _ => isDecimalDigit after
        | after :: _ => isDecimalDigit after
        | [] => false
    | _ => false

def extractFunction (document : Document) (selection : Range) : Action :=
  { title := "Extract to function", kind := some .extraction, notice := none
    effect := .command {
      kind := .extractFunction, title := "Extract to function"
      arguments := [.text document.uri, selection.toValue] } }

def extractVariable (settings : RefactorSettings) (document : Document) (selection : Range) :
    Except Fault Action :=
  let selected := (document.textIn selection).strip
  let typeName := if looksFloat selected then BaseType.float.name else BaseType.int.name
  let line := selection.start.line
  match settings.variableName with
  | .text name =>
    let declaration := (document.line line).indentation ++ s!"{typeName} {name} = ".toList ++
      selected ++ [';', '\n']
    .ok {
      title := "Extract to variable", kind := some .extraction, notice := none
      effect := .edits document.uri
        [.insert (Fix.lineStart line) declaration, { range := selection, newText := name.toList }] }
  | _ => .error .wrongKind

def extractions (settings : RefactorSettings) (document : Document) (selection : Range) :
    Except Fault (List Action) := do
  if selection.start.line == selection.stop.line &&
      selection.start.character != selection.stop.character then
    if (document.textIn selection).isAllBlank then
      return [extractFunction document selection]
    else
      return [extractFunction document selection, ← extractVariable settings document selection]
  else return []

/-- All actions for notices and a selection. A request that is cancelled has none. -/
def actions (table : FixTable) (settings : RefactorSettings) (document : Document)
    (notices : List Notice) (selection : Option Range) (isCancelled : Bool) :
    Except Fault (List Action) := do
  if isCancelled then return []
  let extractions ←
    match selection with
    | none => pure []
    | some selection => extractions settings document selection
  return fixes table document notices ++ extractions

end Menu

end SysYTools
