import SysYTools.Problem
import SysYTools.Tree.Basic

/-!
The rule about loops: statements that leave a loop or start its next turn stand inside one.
-/

namespace SysYTools

namespace Violations

private def strayJump (inLoop : Bool) (jump : Jump) (span : Span) : List Report :=
  if inLoop then [] else [{ problem := .strayJump jump, span }]

mutual

/-- The jumps of a statement that are in no loop. -/
def strayJumps (inLoop : Bool) : Stmt → List Report
  | .breakLoop span => strayJump inLoop .breakLoop span
  | .continueLoop span => strayJump inLoop .continueLoop span
  | .loop _ body _ => strayJumps true body
  | .branch _ thenPart elsePart _ =>
    strayJumps inLoop thenPart ++
      match elsePart with
      | some elsePart => strayJumps inLoop elsePart
      | none => []
  | .block items _ => strayJumpsOfAll inLoop items
  | .assign _ _ _ _ _ | .expr _ _ | .giveBack _ _ => []

def strayJumpsOfAll (inLoop : Bool) : List BlockItem → List Report
  | [] => []
  | first :: rest => strayJumpsOfItem inLoop first ++ strayJumpsOfAll inLoop rest

def strayJumpsOfItem (inLoop : Bool) : BlockItem → List Report
  | .decl _ => []
  | .stmt statement => strayJumps inLoop statement

end

def jumpsInLoops (func : FuncDef) : List Report := strayJumpsOfAll false func.body

end Violations

end SysYTools
