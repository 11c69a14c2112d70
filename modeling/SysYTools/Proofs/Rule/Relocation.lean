import SysYTools.Proofs.Tree.Relocation
import SysYTools.Rule.Book

/-!
Checking a relocated tree. Of the meaning of a name the rules ask only whether there is one, and for a call
what is promised by the function. Of a place they ask whether it lies in a function and whether an expression
stands alone there. So a rule finds at a relocated site the relocated reports, as soon as the names in it have
meanings that promise the same.
-/

namespace SysYTools

open List

/-! ## What rules ask -/

/-- What a call can rely on: the name of a function, the number of its parameters and what it gives back. -/
def FuncDef.contract (func : FuncDef) : String × Nat × ReturnType := (func.name, func.params.length, func.returnType)

def Declaration.contract : Declaration → Option (String × Nat × ReturnType)
  | .function func => some func.contract
  | .variable _ _ | .parameter _ => none

def Node.reference? : Node → Option Reference
  | .expr (.lval reference _ _) | .expr (.call reference _ _) => some reference
  | _ => none

/-- An expression stands alone before a semicolon. -/
def Node.Site.standsAlone (site : Node.Site) : Bool :=
  match site.parent? with
  | some (.stmt (.expr _ _)) => true
  | _ => false

/-- The problems that are reported at a word which uses a name or defines a variable. -/
def Problem.isOfWord : Problem → Bool
  | .duplicateDeclaration _ | .undefinedVariable _ | .unusedVariable _ | .undefinedFunction _ => true
  | _ => false

def Report.relocate (move : Relocation) (report : Report) : Report :=
  { report with span := (if report.problem.isOfWord then move.word else move.place) report.span }

theorem Report.relocate_all (move : Span → Span) (report : Report) :
    report.relocate (.all move) = { report with span := move report.span } := by
  unfold relocate
  split <;> rfl

/-- A site follows another one: it is relocated, and all that the rules ask has the same answer. -/
structure Node.Site.Follows (move : Relocation) (linkage linkage' : Linkage) (site site' : Node.Site) : Prop where
  node : site'.node = site.node.relocate move
  isLocal : site'.isLocal = site.isLocal
  standsAlone : site'.standsAlone = site.standsAlone
  meaning : ∀ reference ∈ site.node.reference?,
    (linkage'.target? (reference.relocate move)).map (·.contract) = (linkage.target? reference).map (·.contract)
  used : ∀ decl, site.node = .decl decl → site.isLocal = true →
    ∀ var ∈ decl.defs, linkage'.uses (var.relocate move) = linkage.uses var

variable {move : Relocation}

/-! ## Violations -/

namespace Violations

theorem repeated_map {α β : Type} (change : α → β) (key : β → String) (items : List α) :
    repeated key (items.map change) = (repeated (key ∘ change) items).map change := by
  have run : ∀ seen, repeated.go key seen (items.map change) =
      (repeated.go (key ∘ change) seen items).map change := by
    induction items with
    | nil => exact fun seen => rfl
    | cons _ _ ih =>
      intro seen
      simp only [map_cons, repeated.go, Function.comp_apply]
      split
      · rw [ih, map_cons]
      · rw [ih]
  exact run []

theorem uniqueNames_relocate (decl : Decl) :
    uniqueNames (decl.relocate move) = (uniqueNames decl).map (·.relocate move) := by
  simp only [uniqueNames, Decl.relocate, repeated_map, map_map]
  rfl

theorem usedVariables_relocate {linkage linkage' : Linkage} {decl : Decl}
    (used : ∀ var ∈ decl.defs, linkage'.uses (var.relocate move) = linkage.uses var) :
    usedVariables linkage' (decl.relocate move) = (usedVariables linkage decl).map (·.relocate move) := by
  have same : decl.defs.filter ((fun var => !linkage'.uses var) ∘ fun var => var.relocate move) =
      decl.defs.filter fun var => !linkage.uses var :=
    filter_congr fun var isVar => by simp [used var isVar]
  simp only [usedVariables, Decl.relocate, filter_map, map_map, same]
  rfl

theorem arrayBounds_relocate (var : VarDef) :
    arrayBounds (var.relocate move) = (arrayBounds var).map (·.relocate move) := by
  obtain ⟨_, dims, init, _, _⟩ := var
  cases dims with
  | nil => rfl
  | cons first =>
    cases first with
    | intLit written =>
      cases init with
      | none => rfl
      | some init =>
        cases init with
        | expr => rfl
        | list =>
          simp only [arrayBounds, VarDef.relocate, map_cons, Expr.relocate, Option.map_some,
            InitVal.relocate, InitVal.relocateAll_eq, length_map]
          cases Literal.intValue written with
          | error => rfl
          | ok =>
            dsimp only
            split <;> rfl
    | _ => rfl

theorem initializerShape_relocate (var : VarDef) :
    initializerShape (var.relocate move) = (initializerShape var).map (·.relocate move) := by
  obtain ⟨_, dims, init, _, _⟩ := var
  cases init with
  | none => rfl
  | some init =>
    have places : (init.relocate move).span = move.place init.span := init.span_relocate
    cases dims <;> cases init <;>
      simp [initializerShape, VarDef.relocate, VarDef.isArray, InitVal.relocate, Report.relocate, Problem.isOfWord,
        InitVal.span]

/-! The rules see contracts only. -/

section Contracts

variable (linkage : Linkage) (reference : Reference)

theorem definedVariable_eq : definedVariable linkage reference =
    match (linkage.target? reference).map (·.contract) with
    | some _ => []
    | none => [{ problem := .undefinedVariable reference.name, span := reference.span }] := by
  unfold definedVariable
  cases linkage.target? reference <;> rfl

theorem definedFunction_eq : definedFunction linkage reference =
    match (linkage.target? reference).map (·.contract) with
    | some _ => []
    | none => [{ problem := .undefinedFunction reference.name, span := reference.span }] := by
  unfold definedFunction
  cases linkage.target? reference <;> rfl

theorem argumentCount_eq (arguments : List Expr) (span : Span) :
    argumentCount linkage reference arguments span =
      match (linkage.target? reference).map (·.contract) with
      | some (some (name, wanted, _)) =>
        if wanted = arguments.length then []
        else [{ problem := .argumentCount name wanted arguments.length, span }]
      | _ => [] := by
  unfold argumentCount
  match linkage.target? reference with
  | none | some (.variable _ _) | some (.parameter _) | some (.function _) => rfl

theorem voidValue_eq (site : Node.Site) (span : Span) :
    voidValue linkage site.parent? reference span =
      match (linkage.target? reference).map (·.contract) with
      | some (some (name, _, returnType)) =>
        if returnType = .void ∧ site.standsAlone = false then [{ problem := .voidValue name, span }] else []
      | _ => [] := by
  unfold voidValue Node.Site.standsAlone
  match linkage.target? reference with
  | none | some (.variable _ _) | some (.parameter _) => rfl
  | some (.function func) =>
    simp only [Option.map_some, Declaration.contract, FuncDef.contract]
    by_cases isVoid : func.returnType = .void
    · simp only [isVoid, ne_eq, not_true_eq_false, if_false, true_and]
      split <;> simp_all
    · simp only [isVoid, ne_eq, not_false_eq_true, if_true, false_and, if_false]

end Contracts

section Uses

variable {linkage linkage' : Linkage} {reference : Reference}
  (same : (linkage'.target? (reference.relocate move)).map (·.contract) = (linkage.target? reference).map (·.contract))
include same

theorem definedVariable_relocate :
    definedVariable linkage' (reference.relocate move) =
      (definedVariable linkage reference).map (·.relocate move) := by
  rw [definedVariable_eq, definedVariable_eq, same]
  cases (linkage.target? reference).map (·.contract) <;> rfl

theorem definedFunction_relocate :
    definedFunction linkage' (reference.relocate move) =
      (definedFunction linkage reference).map (·.relocate move) := by
  rw [definedFunction_eq, definedFunction_eq, same]
  cases (linkage.target? reference).map (·.contract) <;> rfl

theorem argumentCount_relocate (arguments : List Expr) (span : Span) :
    argumentCount linkage' (reference.relocate move) (arguments.map (·.relocate move)) (move.place span) =
      (argumentCount linkage reference arguments span).map (·.relocate move) := by
  rw [argumentCount_eq, argumentCount_eq, same, length_map]
  generalize (linkage.target? reference).map (·.contract) = contract
  match contract with
  | none | some none => rfl
  | some (some (name, wanted, _)) =>
    dsimp only
    split <;> rfl

theorem voidValue_relocate {site site' : Node.Site} (standsAlone : site'.standsAlone = site.standsAlone)
    (span : Span) :
    voidValue linkage' site'.parent? (reference.relocate move) (move.place span) =
      (voidValue linkage site.parent? reference span).map (·.relocate move) := by
  rw [voidValue_eq, voidValue_eq, same, standsAlone]
  generalize (linkage.target? reference).map (·.contract) = contract
  match contract with
  | none | some none => rfl
  | some (some (name, _, returnType)) =>
    dsimp only
    split <;> rfl

end Uses

theorem functions_relocate (unit : CompUnit) :
    (unit.relocate move).functions = unit.functions.map (·.relocate move) := by
  simp only [CompUnit.functions, CompUnit.relocate, filterMap_map, map_filterMap]
  refine filterMap_congr fun item _ => ?_
  cases item <;> rfl

theorem uniqueFunctions_relocate (unit : CompUnit) :
    uniqueFunctions (unit.relocate move) = (uniqueFunctions unit).map (·.relocate move) := by
  simp only [uniqueFunctions, functions_relocate, repeated_map, map_map]
  rfl

theorem lastReturn?_relocate (body : List BlockItem) :
    lastReturn? (body.map (·.relocate move)) =
      (lastReturn? body).map fun found => (found.1.map (·.relocate move), move.place found.2) := by
  rw [lastReturn?, lastReturn?, ← getLast?_map, filterMap_map, map_filterMap]
  congr 1
  refine filterMap_congr fun item _ => ?_
  match item with
  | .decl _ => rfl
  | .stmt (.branch _ _ none _) | .stmt (.branch _ _ (some _) _) => rfl
  | .stmt (.block _ _) | .stmt (.assign _ _ _ _ _) | .stmt (.expr _ _) | .stmt (.loop _ _ _)
  | .stmt (.breakLoop _) | .stmt (.continueLoop _) | .stmt (.giveBack _ _) => rfl

theorem returnShape_relocate (func : FuncDef) :
    returnShape (func.relocate move) = (returnShape func).map (·.relocate move) := by
  simp only [returnShape, FuncDef.relocate, lastReturn?_relocate]
  cases func.returnType <;> rcases lastReturn? func.body with _ | ⟨_ | _, _⟩ <;> rfl

mutual

theorem strayJumps_relocate (inLoop : Bool) (stmt : Stmt) :
    strayJumps inLoop (stmt.relocate move) = (strayJumps inLoop stmt).map (·.relocate move) :=
  match stmt with
  | .breakLoop _ | .continueLoop _ => by cases inLoop <;> rfl
  | .loop _ body _ => strayJumps_relocate true body
  | .branch _ thenPart none _ => by
    simp only [Stmt.relocate, strayJumps, append_nil, strayJumps_relocate inLoop thenPart]
  | .branch _ thenPart (some elsePart) _ => by
    simp only [Stmt.relocate, strayJumps, strayJumps_relocate inLoop thenPart,
      strayJumps_relocate inLoop elsePart, map_append]
  | .block items _ => strayJumpsOfAll_relocate inLoop items
  | .assign _ _ _ _ _ | .expr _ _ | .giveBack _ _ => rfl

theorem strayJumpsOfAll_relocate (inLoop : Bool) (items : List BlockItem) :
    strayJumpsOfAll inLoop (BlockItem.relocateAll move items) = (strayJumpsOfAll inLoop items).map (·.relocate move) :=
  match items with
  | [] => rfl
  | first :: rest => by
    simp only [BlockItem.relocateAll, strayJumpsOfAll, strayJumpsOfItem_relocate inLoop first,
      strayJumpsOfAll_relocate inLoop rest, map_append]

theorem strayJumpsOfItem_relocate (inLoop : Bool) (item : BlockItem) :
    strayJumpsOfItem inLoop (item.relocate move) = (strayJumpsOfItem inLoop item).map (·.relocate move) :=
  match item with
  | .decl _ => rfl
  | .stmt statement => strayJumps_relocate inLoop statement

end

theorem jumpsInLoops_relocate (func : FuncDef) :
    jumpsInLoops (func.relocate move) = (jumpsInLoops func).map (·.relocate move) := by
  have jumps := @strayJumpsOfAll_relocate move false func.body
  rwa [BlockItem.relocateAll_eq] at jumps

end Violations

open Violations

section

variable {linkage linkage' : Linkage} {site site' : Node.Site} (follows : site.Follows move linkage linkage' site')
include follows

theorem Rule.violations_follows (rule : Rule) :
    rule.violations linkage' site' = (rule.violations linkage site).map (·.relocate move) := by
  obtain ⟨node, isLocal, standsAlone, meaning, used⟩ := follows
  have alone := @voidValue_relocate move linkage linkage'
  obtain ⟨part, _⟩ := site
  obtain ⟨_, _⟩ := site'
  dsimp only at node meaning used
  subst node
  cases part with
  | unit program =>
    cases rule with
    | uniqueFunctions => exact uniqueFunctions_relocate program
    | _ => rfl
  | decl declaration =>
    cases rule with
    | uniqueNames => exact uniqueNames_relocate declaration
    | usedLocals =>
      change (if Node.Site.isLocal _ then usedVariables linkage' (declaration.relocate move) else []) =
        (if _ then usedVariables linkage declaration else []).map _
      rw [isLocal]
      split
      next inside => exact usedVariables_relocate (used declaration rfl inside)
      · rfl
    | _ => rfl
  | varDef var =>
    cases rule with
    | arrayBounds => exact arrayBounds_relocate var
    | initializerShape => exact initializerShape_relocate var
    | _ => rfl
  | initList => cases rule <;> rfl
  | func function =>
    cases rule with
    | returnShape => exact returnShape_relocate function
    | jumpsInLoops => exact jumpsInLoops_relocate function
    | _ => rfl
  | param => cases rule <;> rfl
  | stmt statement =>
    cases statement with
    | loop _ body =>
      cases rule with
      | jumpsInLoops => exact strayJumps_relocate false body
      | _ => rfl
    | branch _ _ elsePart => cases elsePart <;> cases rule <;> rfl
    | _ => cases rule <;> rfl
  | expr expression =>
    cases expression with
    | lval reference =>
      have same := meaning reference rfl
      cases rule with
      | definedVariable => exact definedVariable_relocate same
      | definedFunction => exact definedFunction_relocate same
      | _ => rfl
    | call reference arguments span =>
      have same := meaning reference rfl
      cases rule with
      | definedVariable => exact definedVariable_relocate same
      | definedFunction => exact definedFunction_relocate same
      | argumentCount =>
        have counts := argumentCount_relocate same arguments span
        rwa [← Expr.relocateAll_eq] at counts
      | voidValue => exact alone same standsAlone span
      | _ => rfl
    | _ => cases rule <;> rfl

theorem Rulebook.violations_follows (rulebook : Rulebook) :
    rulebook.violations linkage' site' = (rulebook.violations linkage site).map (·.relocate move) := by
  have kind : site'.node.kind = site.node.kind := by rw [follows.node, Node.kind_relocate]
  simp only [Rulebook.violations, kind, map_flatMap]
  exact flatMap_congr fun rule _ => rule.violations_follows follows

end

end SysYTools
