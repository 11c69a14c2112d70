import SysYTools.Problem
import SysYTools.Scope.Linkage
import SysYTools.Tree.Kind

/-!
Rules about declarations and variables: names are declared once within a declaration, used names are
declared, initializers fit, and local variables are used.
-/

namespace SysYTools

namespace Violations

def repeated {α : Type} (key : α → String) (items : List α) : List α := go [] items
where
  go (seen : List String) : List α → List α
  | [] => []
  | item :: rest => if seen.contains (key item) then item :: go seen rest else go (key item :: seen) rest

def uniqueNames (decl : Decl) : List Report :=
  (repeated VarDef.name decl.defs).map fun var =>
    { problem := .duplicateDeclaration var.name, span := var.nameSpan }

def usedVariables (linkage : Linkage) (decl : Decl) : List Report :=
  (decl.defs.filter fun var => !linkage.uses var).map fun var =>
    { problem := .unusedVariable var.name, span := var.nameSpan }

/-- An initializer list has no more elements than a literal first dimension says. -/
def arrayBounds (var : VarDef) : List Report :=
  match var.dims, var.init with
  | .intLit written _ :: _, some (.list elements span) =>
    match Literal.intValue written with
    | .ok declared =>
      if elements.length ≤ declared then []
      else [{ problem := .arrayOverflow var.name declared elements.length, span }]
    | .error _ => []
  | _, _ => []

/-- Arrays have initializer lists, and other variables have not. -/
def initializerShape (var : VarDef) : List Report :=
  match var.init with
  | none => []
  | some init =>
    let isList :=
      match init with
      | .list _ _ => true
      | .expr _ => false
    if var.isArray = isList then []
    else [{ problem := .initializerShape var.name var.isArray, span := init.span }]

def definedVariable (linkage : Linkage) (reference : Reference) : List Report :=
  match linkage.target? reference with
  | some _ => []
  | none => [{ problem := .undefinedVariable reference.name, span := reference.span }]

end Violations

end SysYTools
