import SysYTools.Rule.Basic

/-!
Rulebooks: which rules are tried at which kinds of nodes, and the search for all violations. The program is
walked once, and at each node the rules for its kind are tried in the order of the book. The standard book
places every rule only where it fits.
-/

namespace SysYTools

/-- A rule, and the kind of the nodes at which it is tried. -/
structure Placement where
  kind : NodeKind
  rule : Rule
  deriving DecidableEq, Repr

abbrev Rulebook := List Placement

namespace Rulebook

def standard : Rulebook :=
  [ ⟨.decl, .uniqueNames⟩, ⟨.decl, .usedLocals⟩, ⟨.varDef, .arrayBounds⟩, ⟨.varDef, .initializerShape⟩,
    ⟨.lval, .definedVariable⟩, ⟨.unit, .uniqueFunctions⟩, ⟨.func, .returnShape⟩,
    ⟨.call, .definedFunction⟩, ⟨.call, .argumentCount⟩, ⟨.call, .voidValue⟩, ⟨.func, .jumpsInLoops⟩ ]

def rulesFor (rulebook : Rulebook) (kind : NodeKind) : List Rule :=
  rulebook.filterMap fun placement => if placement.kind = kind then some placement.rule else none

def without (rulebook : Rulebook) (rule : Rule) : Rulebook := rulebook.filter (·.rule ≠ rule)

/-- The violations at a node, in the order of the rules. -/
def violations (rulebook : Rulebook) (linkage : Linkage) (site : Node.Site) : List Report :=
  (rulebook.rulesFor site.node.kind).flatMap (·.violations linkage site)

/-- Whether every rule for the kind of a node fits it. -/
def fits (rulebook : Rulebook) (site : Node.Site) : Bool := (rulebook.rulesFor site.node.kind).all (·.fits site)

/-- The standard rules fit every node at which they are tried. -/
theorem standard_fits (site : Node.Site) : standard.fits site = true := by
  obtain ⟨node, ancestors⟩ := site
  cases node with
  | stmt statement => cases statement <;> rfl
  | expr expression => cases expression <;> rfl
  | _ => rfl

end Rulebook

structure Program where
  unit : CompUnit
  linkage : Linkage

namespace Program

/-- All violations of the rules of a book, in the order of the nodes. -/
def violations (program : Program) (rulebook : Rulebook) : List Report :=
  (Node.unit program.unit).sites.flatMap (rulebook.violations program.linkage)

/-- Whether a book places its rules only where they fit the program. -/
def isFittedBy (program : Program) (rulebook : Rulebook) : Bool := (Node.unit program.unit).sites.all rulebook.fits

end Program

end SysYTools
