import SysYTools.Proofs.Scope.Lexical
import SysYTools.Rule.Book

/-!
The static rules of the language. A breach belongs to the node that breaks a rule. It has the code of the
rule, and its report says which text is at fault. What a name means is taken from the rule of lexical scoping, so no
linking is involved, and no order in which nodes are looked at.
-/

namespace SysYTools

open List

variable {ancestors : List Node} {code : Code} {items : List BlockItem} {var : VarDef}

def BlockItem.NoReturn (items : List BlockItem) : Prop := ∀ value span, .stmt (.giveBack value span) ∉ items

/-- The last return statement that stands directly among the items. -/
def BlockItem.LastReturn (items : List BlockItem) (value : Option Expr) (span : Span) : Prop :=
  ∃ before after, items = before ++ .stmt (.giveBack value span) :: after ∧ NoReturn after

def Node.Site.IsUsed (site : Node.Site) : Prop := ∀ value span, site.parent? ≠ some (.stmt (.expr value span))

def Node.Site.OutsideLoops (site : Node.Site) : Prop :=
  ∀ condition body span, .stmt (.loop condition body span) ∉ site.ancestors

def Jump.stmt : Jump → Span → Stmt
  | .breakLoop, span => .breakLoop span
  | .continueLoop, span => .continueLoop span

inductive Breach (unit : CompUnit) : Node.Site → Code → Report → Prop where
  | duplicateFunction {func earlier : FuncDef} {ancestors : List Node} :
      earlier ∈ unit.functions → earlier.name = func.name → earlier.nameSpan.Before func.nameSpan →
      Breach unit ⟨.func func, ancestors⟩ .duplicateFunction ⟨.duplicateFunction func.name, func.nameSpan⟩
  | duplicateDeclaration {decl : Decl} {var earlier : VarDef} {ancestors : List Node} :
      earlier ∈ decl.defs → earlier.name = var.name → earlier.nameSpan.Before var.nameSpan →
      Breach unit ⟨.varDef var, .decl decl :: ancestors⟩ .duplicateDeclaration
        ⟨.duplicateDeclaration var.name, var.nameSpan⟩
  | undefinedVariable {reference : Reference} {indices : List Expr} {span : Span} {ancestors : List Node} :
      Lexical.variableTarget unit ancestors reference = none →
      Breach unit ⟨.expr (.lval reference indices span), ancestors⟩ .undefinedVariable
        ⟨.undefinedVariable reference.name, reference.span⟩
  | undefinedFunction {reference : Reference} {arguments : List Expr} {span : Span}
      {ancestors : List Node} :
      Lexical.functionTarget unit reference = none →
      Breach unit ⟨.expr (.call reference arguments span), ancestors⟩ .undefinedFunction
        ⟨.undefinedFunction reference.name, reference.span⟩
  | argumentCount {reference : Reference} {arguments : List Expr} {span : Span} {ancestors : List Node}
      {func : FuncDef} :
      Lexical.functionTarget unit reference = some (.function func) →
      func.params.length ≠ arguments.length →
      Breach unit ⟨.expr (.call reference arguments span), ancestors⟩ .parameterMismatch
        ⟨.argumentCount func.name func.params.length arguments.length, span⟩
  | voidValue {reference : Reference} {arguments : List Expr} {span : Span} {ancestors : List Node}
      {func : FuncDef} :
      Lexical.functionTarget unit reference = some (.function func) → func.returnType = .void →
      Node.Site.IsUsed ⟨.expr (.call reference arguments span), ancestors⟩ →
      Breach unit ⟨.expr (.call reference arguments span), ancestors⟩ .voidAssignment ⟨.voidValue func.name, span⟩
  | arrayOverflow {var : VarDef} {written : String} {dimSpan span : Span} {dims : List Expr}
      {elements : List InitVal} {declared : Int} {ancestors : List Node} :
      var.dims = .intLit written dimSpan :: dims → var.init = some (.list elements span) →
      Literal.intValue written = .ok declared → declared < elements.length →
      Breach unit ⟨.varDef var, ancestors⟩ .arraySizeOverflow ⟨.arrayOverflow var.name declared elements.length, span⟩
  | scalarList {var : VarDef} {elements : List InitVal} {span : Span} {ancestors : List Node} :
      var.dims = [] → var.init = some (.list elements span) →
      Breach unit ⟨.varDef var, ancestors⟩ .typeMismatch ⟨.initializerShape var.name false, span⟩
  | arrayValue {var : VarDef} {value : Expr} {ancestors : List Node} :
      var.dims ≠ [] → var.init = some (.expr value) →
      Breach unit ⟨.varDef var, ancestors⟩ .typeMismatch ⟨.initializerShape var.name true, value.span⟩
  | strayJump {jump : Jump} {span : Span} {ancestors : List Node} :
      Node.Site.OutsideLoops ⟨.stmt (jump.stmt span), ancestors⟩ →
      Breach unit ⟨.stmt (jump.stmt span), ancestors⟩ .invalidBreakContinue ⟨.strayJump jump, span⟩
  | missingReturn {func : FuncDef} {type : BaseType} {ancestors : List Node} :
      func.returnType = .value type → BlockItem.NoReturn func.body →
      Breach unit ⟨.func func, ancestors⟩ .missingReturn ⟨.missingReturn func.name type.name, func.typeSpan⟩
  | emptyReturn {func : FuncDef} {type : BaseType} {span : Span} {ancestors : List Node} :
      func.returnType = .value type → BlockItem.LastReturn func.body none span →
      Breach unit ⟨.func func, ancestors⟩ .emptyReturn ⟨.emptyReturn func.name type.name, span⟩
  | voidReturnValue {func : FuncDef} {value : Expr} {span : Span} {ancestors : List Node} :
      func.returnType = .void → BlockItem.LastReturn func.body (some value) span →
      Breach unit ⟨.func func, ancestors⟩ .voidReturnValue ⟨.voidReturnValue func.name, span⟩

/-! ## Return statements -/

theorem BlockItem.noReturn_iff : NoReturn items ↔ Violations.lastReturn? items = none := by
  rw [Violations.lastReturn?, getLast?_eq_none_iff, filterMap_eq_nil_iff]
  constructor
  · intro none item member
    split
    next value span => exact absurd member (none value span)
    · rfl
  · intro none value span member
    cases none _ member

theorem BlockItem.lastReturn_iff {value : Option Expr} {span : Span} :
    LastReturn items value span ↔ Violations.lastReturn? items = some (value, span) := by
  constructor
  · rintro ⟨before, after, rfl, none⟩
    have last := noReturn_iff.mp none
    rw [Violations.lastReturn?, getLast?_eq_none_iff] at last
    simp [Violations.lastReturn?, filterMap_append, last]
  · intro found
    rw [Violations.lastReturn?, getLast?_eq_some_iff] at found
    obtain ⟨_, split⟩ := found
    obtain ⟨before, _, rfl, -, last⟩ := filterMap_eq_append_iff.mp split
    obtain ⟨skipped, _, after, rfl, -, isReturn, none⟩ := filterMap_eq_cons_iff.mp last
    refine ⟨before ++ skipped, after, ?_, noReturn_iff.mpr ?_⟩
    · split at isReturn
      · obtain ⟨rfl, rfl⟩ := Prod.mk.inj (Option.some.inj isReturn)
        simp
      · cases isReturn
    · rw [Violations.lastReturn?, none, getLast?_nil]

/-! ## The breaches of a node as a list -/

namespace Breach

def repeatedName (site : Node.Site) : List Report :=
  match site.node, site.ancestors with
  | .varDef var, .decl decl :: _ =>
    if ∃ earlier ∈ decl.defs, earlier.name = var.name ∧ earlier.nameSpan.Before var.nameSpan then
      [⟨.duplicateDeclaration var.name, var.nameSpan⟩]
    else []
  | _, _ => []

def repeatedFunction (unit : CompUnit) (site : Node.Site) : List Report :=
  match site.node with
  | .func func =>
    if ∃ earlier ∈ unit.functions, earlier.name = func.name ∧ earlier.nameSpan.Before func.nameSpan then
      [⟨.duplicateFunction func.name, func.nameSpan⟩]
    else []
  | _ => []

def isLoop : Node → Bool
  | .stmt (.loop _ _ _) => true
  | _ => false

def strayJumps (site : Node.Site) : List Report :=
  match site.node with
  | .stmt (.breakLoop span) => if site.ancestors.any isLoop then [] else [⟨.strayJump .breakLoop, span⟩]
  | .stmt (.continueLoop span) => if site.ancestors.any isLoop then [] else [⟨.strayJump .continueLoop, span⟩]
  | _ => []

/-- The breaches of the other rules, which are found at the node itself. -/
def ofNode (unit : CompUnit) (site : Node.Site) : List Report :=
  match site.node with
  | .func func => Violations.returnShape func
  | .varDef var => Violations.arrayBounds var ++ Violations.initializerShape var
  | .expr (.lval reference _ _) =>
    match Lexical.variableTarget unit site.ancestors reference with
    | some _ => []
    | none => [⟨.undefinedVariable reference.name, reference.span⟩]
  | .expr (.call reference arguments span) =>
    match Lexical.functionTarget unit reference with
    | none => [⟨.undefinedFunction reference.name, reference.span⟩]
    | some (.function func) =>
      (if func.params.length = arguments.length then []
        else [⟨.argumentCount func.name func.params.length arguments.length, span⟩]) ++
      (if func.returnType ≠ .void then []
        else
          match site.parent? with
          | some (.stmt (.expr _ _)) => []
          | _ => [⟨.voidValue func.name, span⟩])
    | some _ => []
  | _ => []

def reports (unit : CompUnit) (site : Node.Site) : List Report :=
  repeatedName site ++ (repeatedFunction unit site ++ (strayJumps site ++ ofNode unit site))

variable {unit : CompUnit} {site : Node.Site} {report : Report}

theorem of_mem_repeatedName (member : report ∈ repeatedName site) : Breach unit site report.problem.code report := by
  obtain ⟨_, _⟩ := site
  simp only [repeatedName] at member
  split at member
  next var decl _ =>
    split at member
    next found =>
      obtain ⟨_, isDef, same, order⟩ := found
      rw [mem_singleton.mp member]
      exact .duplicateDeclaration isDef same order
    · cases member
  · cases member

theorem of_mem_repeatedFunction (member : report ∈ repeatedFunction unit site) :
    Breach unit site report.problem.code report := by
  obtain ⟨_, _⟩ := site
  simp only [repeatedFunction] at member
  split at member
  next func =>
    split at member
    next found =>
      obtain ⟨_, isFunction, same, order⟩ := found
      rw [mem_singleton.mp member]
      exact .duplicateFunction isFunction same order
    · cases member
  · cases member

theorem outsideLoops_iff : site.OutsideLoops ↔ site.ancestors.any isLoop = false := by
  rw [any_eq_false]
  constructor
  · intro outside node member found
    simp only [isLoop] at found
    split at found
    next condition body span => exact outside condition body span member
    · cases found
  · intro none condition body span member
    exact none _ member rfl

theorem of_mem_strayJumps (member : report ∈ strayJumps site) : Breach unit site report.problem.code report := by
  obtain ⟨_, _⟩ := site
  simp only [strayJumps] at member
  split at member
  next span =>
    split at member
    · cases member
    next none =>
      rw [mem_singleton.mp member]
      exact @strayJump unit .breakLoop span _ (outsideLoops_iff.mpr (by simpa using none))
  next span =>
    split at member
    · cases member
    next none =>
      rw [mem_singleton.mp member]
      exact @strayJump unit .continueLoop span _ (outsideLoops_iff.mpr (by simpa using none))
  · cases member

theorem of_mem_returnShape {func : FuncDef} (member : report ∈ Violations.returnShape func) :
    Breach unit ⟨.func func, ancestors⟩ report.problem.code report := by
  simp only [Violations.returnShape] at member
  split at member
  next type returns last =>
    rw [mem_singleton.mp member]
    exact .missingReturn returns (BlockItem.noReturn_iff.mpr last)
  next type span returns last =>
    rw [mem_singleton.mp member]
    exact .emptyReturn returns (BlockItem.lastReturn_iff.mpr last)
  · cases member
  next value span returns last =>
    rw [mem_singleton.mp member]
    exact .voidReturnValue returns (BlockItem.lastReturn_iff.mpr last)
  · cases member

theorem of_mem_arrayBounds (member : report ∈ Violations.arrayBounds var) :
    Breach unit ⟨.varDef var, ancestors⟩ report.problem.code report := by
  simp only [Violations.arrayBounds] at member
  split at member
  next written dimSpan dims elements span isArray isList =>
    split at member
    next declared value =>
      split at member
      · cases member
      next more =>
        rw [mem_singleton.mp member]
        exact .arrayOverflow isArray isList value (by omega)
    · cases member
  · cases member

theorem of_mem_initializerShape (member : report ∈ Violations.initializerShape var) :
    Breach unit ⟨.varDef var, ancestors⟩ report.problem.code report := by
  cases init : var.init with
  | none => simp [Violations.initializerShape, init] at member
  | some value =>
    cases value with
    | expr value =>
      cases dims : var.dims with
      | nil => simp [Violations.initializerShape, init, VarDef.isArray, dims] at member
      | cons =>
        have same : report = ⟨.initializerShape var.name true, value.span⟩ := by
          simpa [Violations.initializerShape, init, VarDef.isArray, dims, InitVal.span] using member
        rw [same]
        exact .arrayValue (by simp [dims]) init
    | list _ span =>
      cases dims : var.dims with
      | nil =>
        have same : report = ⟨.initializerShape var.name false, span⟩ := by
          simpa [Violations.initializerShape, init, VarDef.isArray, dims, InitVal.span] using member
        rw [same]
        exact .scalarList dims init
      | cons => simp [Violations.initializerShape, init, VarDef.isArray, dims] at member

theorem of_mem_ofNode (member : report ∈ ofNode unit site) : Breach unit site report.problem.code report := by
  obtain ⟨_, _⟩ := site
  simp only [ofNode] at member
  split at member
  next func => exact of_mem_returnShape member
  next var =>
    rcases mem_append.mp member with bounds | shape
    · exact of_mem_arrayBounds bounds
    · exact of_mem_initializerShape shape
  next reference indices span =>
    split at member
    · cases member
    next none =>
      rw [mem_singleton.mp member]
      exact .undefinedVariable none
  next reference arguments span =>
    split at member
    next none =>
      rw [mem_singleton.mp member]
      exact .undefinedFunction none
    next func found =>
      rcases mem_append.mp member with count | void
      · split at count
        · cases count
        next differs =>
          rw [mem_singleton.mp count]
          exact .argumentCount found differs
      · split at void
        · cases void
        next isVoid =>
          split at void
          · cases void
          next used =>
            rw [mem_singleton.mp void]
            exact .voidValue found (not_not.mp isVoid) fun value span => used value span
    · cases member
  · cases member

theorem code_eq (breach : Breach unit site code report) : report.problem.code = code := by
  cases breach <;> rfl

theorem mem_reports : report ∈ reports unit site ∧ report.problem.code = code ↔ Breach unit site code report := by
  constructor
  · rintro ⟨member, rfl⟩
    simp only [reports, mem_append] at member
    rcases member with name | function | jump | own
    · exact of_mem_repeatedName name
    · exact of_mem_repeatedFunction function
    · exact of_mem_strayJumps jump
    · exact of_mem_ofNode own
  · intro breach
    refine ⟨?_, breach.code_eq⟩
    simp only [reports, mem_append]
    cases breach with
    | duplicateFunction isFunction same order =>
      right; left
      simp only [repeatedFunction]
      rw [if_pos ⟨_, isFunction, same, order⟩]
      exact mem_singleton_self _
    | duplicateDeclaration isDef same order =>
      left
      simp only [repeatedName]
      rw [if_pos ⟨_, isDef, same, order⟩]
      exact mem_singleton_self _
    | @strayJump jump span ancestors outside =>
      have none := outsideLoops_iff.mp outside
      right; right; left
      cases jump <;> simpa [strayJumps, Jump.stmt] using none
    | undefinedVariable none => simp [ofNode, none]
    | undefinedFunction none => simp [ofNode, none]
    | argumentCount found differs => simp [ofNode, found, differs]
    | voidValue found isVoid used =>
      right; right; right
      simp only [ofNode, found, isVoid, ne_eq, not_true_eq_false, if_false]
      refine mem_append_right _ ?_
      split
      next value span shape => exact absurd shape (used value span)
      · exact mem_singleton_self _
    | arrayOverflow isArray isList value =>
      right; right; right
      simp only [ofNode, Violations.arrayBounds, isArray, isList, value]
      refine mem_append_left _ ?_
      rw [if_neg (by omega)]
      exact mem_singleton_self _
    | scalarList isScalar isList =>
      simp [ofNode, Violations.initializerShape, isList, VarDef.isArray, isScalar, InitVal.span]
    | arrayValue isArray isValue =>
      simp [ofNode, Violations.initializerShape, isValue, VarDef.isArray, isArray, InitVal.span]
    | missingReturn returns none => simp [ofNode, Violations.returnShape, returns, BlockItem.noReturn_iff.mp none]
    | emptyReturn returns last => simp [ofNode, Violations.returnShape, returns, BlockItem.lastReturn_iff.mp last]
    | voidReturnValue returns last => simp [ofNode, Violations.returnShape, returns, BlockItem.lastReturn_iff.mp last]

/-! A node breaks each rule once at most, so the codes of its breaches are distinct. -/

private theorem codes_repeatedName : ((repeatedName site).map (·.problem.code)).Sublist [.duplicateDeclaration] := by
  simp only [repeatedName]
  split
  · split <;> simp [Problem.code]
  · simp

private theorem codes_repeatedFunction :
    ((repeatedFunction unit site).map (·.problem.code)).Sublist [.duplicateFunction] := by
  simp only [repeatedFunction]
  split
  · split <;> simp [Problem.code]
  · simp

private theorem codes_strayJumps : ((strayJumps site).map (·.problem.code)).Sublist [.invalidBreakContinue] := by
  simp only [strayJumps]
  split
  · split <;> simp [Problem.code]
  · split <;> simp [Problem.code]
  · simp

private theorem codes_returnShape (func : FuncDef) :
    ((Violations.returnShape func).map (·.problem.code)).Sublist [.missingReturn, .emptyReturn, .voidReturnValue] := by
  simp only [Violations.returnShape]
  split <;> simp [Problem.code]

private theorem codes_arrayBounds (var : VarDef) :
    ((Violations.arrayBounds var).map (·.problem.code)).Sublist [.arraySizeOverflow] := by
  simp only [Violations.arrayBounds]
  split
  · split
    · split <;> simp [Problem.code]
    · simp
  · simp

private theorem codes_initializerShape (var : VarDef) :
    ((Violations.initializerShape var).map (·.problem.code)).Sublist [.typeMismatch] := by
  simp only [Violations.initializerShape]
  cases var.init with
  | none => simp
  | some init => cases init <;> dsimp only <;> split <;> simp [Problem.code]

private def ownCodes : List Code :=
  [.undefinedVariable, .undefinedFunction, .parameterMismatch, .voidAssignment, .arraySizeOverflow,
    .typeMismatch, .missingReturn, .emptyReturn, .voidReturnValue]

private theorem codes_ofNode : ((ofNode unit site).map (·.problem.code)).Sublist ownCodes := by
  obtain ⟨_, _⟩ := site
  simp only [ofNode]
  split
  next func =>
    have least : [Code.missingReturn, .emptyReturn, .voidReturnValue].Sublist ownCodes := by decide
    exact (codes_returnShape func).trans least
  next var =>
    have least : ([.arraySizeOverflow] ++ [.typeMismatch] : List Code).Sublist ownCodes := by decide
    rw [map_append]
    exact ((codes_arrayBounds var).append (codes_initializerShape var)).trans least
  next reference indices span => split <;> simp [Problem.code, ownCodes]
  next reference arguments span =>
    split
    · simp [Problem.code, ownCodes]
    next func found =>
      have least : ([.parameterMismatch] ++ [.voidAssignment] : List Code).Sublist ownCodes := by decide
      rw [map_append]
      refine List.Sublist.trans (List.Sublist.append ?_ ?_) least
      · split <;> simp [Problem.code]
      · split
        · simp
        · split <;> simp [Problem.code]
    · simp
  · simp

theorem reports_nodup : (reports unit site).Nodup := by
  have distinct : ([.duplicateDeclaration] ++ ([.duplicateFunction] ++
      ([.invalidBreakContinue] ++ ownCodes)) : List Code).Nodup := by decide
  refine List.Nodup.of_map (·.problem.code) (List.Sublist.nodup ?_ distinct)
  simp only [reports, map_append]
  exact codes_repeatedName.append (codes_repeatedFunction.append (codes_strayJumps.append codes_ofNode))

end Breach

end SysYTools
