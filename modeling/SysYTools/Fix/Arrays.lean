import SysYTools.Fix.Request
import SysYTools.Repair.Arrays

/-!
Fixes for arrays that have more elements than their size.
-/

namespace SysYTools

namespace Fix

def arrayName? (request : Request) : Option String := request.name? "arrayName" MessagePart.arrayName

def extent? (request : Request) (name : String) : Option (Nat × Nat) :=
  (Repair.declarationLine? request.document name.toList request.startLine).map
    (Repair.declarationExtent request.document)

def replaceBetween (request : Request) (title : String) (extent : Nat × Nat) (newText : Text) :
    Action :=
  request.edits title [{ range := request.document.rangeOf extent.1 extent.2, newText }]

def resizeArray : Resolver := fun request =>
  match arrayName? request with
  | none => .ok none
  | some name =>
    if request.range.start.line != request.range.stop.line then
      .ok (some (request.command s!"Resize array '{name}' to fit its initializer" .fixArraySize
        [.text name, request.range.toValue]))
    else
      match extent? request name with
      | none => .ok none
      | some extent => do
        let declaration := request.document.text.slice extent.1 extent.2
        return (← Repair.resize declaration name.toList).map fun resizing =>
          replaceBetween request
            s!"Increase size of array '{name}' from {resizing.oldSize} to {resizing.newSize}"
            extent resizing.text

def trimInitializer : Resolver := fun request =>
  match arrayName? request with
  | none => .ok none
  | some name =>
    match extent? request name with
    | none => .ok none
    | some extent => do
      let declaration := request.document.text.slice extent.1 extent.2
      return (← Repair.trim declaration name.toList).map fun trimmed =>
        replaceBetween request s!"Remove initializer elements beyond the size of '{name}'" extent trimmed

end Fix

end SysYTools
