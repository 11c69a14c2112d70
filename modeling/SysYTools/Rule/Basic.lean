import SysYTools.Rule.Functions
import SysYTools.Rule.Loops

/-!
The rules that a program has to follow. A rule looks at one node and reports what violates it there. It
fits the nodes that have what it looks at: the rules about uses of names fit variables and calls alike,
and the rule about jumps fits loops as well as functions.
-/

namespace SysYTools

inductive Rule where
  | uniqueNames
  | usedLocals
  | arrayBounds
  | initializerShape
  | definedVariable
  | uniqueFunctions
  | returnShape
  | definedFunction
  | argumentCount
  | voidValue
  | jumpsInLoops
  deriving DecidableEq, Repr

namespace Rule

/-- The violations of a rule at a node. A rule finds none where it does not fit. -/
def violations (linkage : Linkage) (site : Node.Site) : Rule → List Report
  | .uniqueNames =>
    match site.node with
    | .decl decl => Violations.uniqueNames decl
    | _ => []
  | .usedLocals =>
    match site.node with
    | .decl decl => if site.isLocal then Violations.usedVariables linkage decl else []
    | _ => []
  | .arrayBounds =>
    match site.node with
    | .varDef var => Violations.arrayBounds var
    | _ => []
  | .initializerShape =>
    match site.node with
    | .varDef var => Violations.initializerShape var
    | _ => []
  | .definedVariable =>
    match site.node with
    | .expr (.lval reference _ _) | .expr (.call reference _ _) => Violations.definedVariable linkage reference
    | _ => []
  | .uniqueFunctions =>
    match site.node with
    | .unit unit => Violations.uniqueFunctions unit
    | _ => []
  | .returnShape =>
    match site.node with
    | .func func => Violations.returnShape func
    | _ => []
  | .definedFunction =>
    match site.node with
    | .expr (.lval reference _ _) | .expr (.call reference _ _) => Violations.definedFunction linkage reference
    | _ => []
  | .argumentCount =>
    match site.node with
    | .expr (.call reference arguments span) => Violations.argumentCount linkage reference arguments span
    | _ => []
  | .voidValue =>
    match site.node with
    | .expr (.call reference _ span) => Violations.voidValue linkage site.parent? reference span
    | _ => []
  | .jumpsInLoops =>
    match site.node with
    | .func func => Violations.jumpsInLoops func
    | .stmt (.loop _ body _) => Violations.strayJumps false body
    | _ => []

/-- Whether a node has what a rule looks at. The rule about unused variables looks at nothing outside of
functions. The rule about array sizes looks for an initializer only after a literal dimension. -/
def fits (site : Node.Site) : Rule → Bool
  | .uniqueNames => site.node.kind == .decl
  | .usedLocals => site.node.kind == .decl || !site.isLocal
  | .arrayBounds =>
    match site.node with
    | .varDef _ => true
    | .param { dims := .intLit _ _ :: _, .. } => false
    | .param _ => true
    | _ => false
  | .initializerShape => site.node.kind == .varDef
  | .definedVariable | .definedFunction | .argumentCount | .voidValue =>
    site.node.kind == .lval || site.node.kind == .call
  | .uniqueFunctions => site.node.kind == .unit
  | .returnShape => site.node.kind == .func
  | .jumpsInLoops => site.node.kind == .func || site.node.kind == .loop

end Rule

end SysYTools
