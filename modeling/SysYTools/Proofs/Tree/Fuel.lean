import Mathlib
import SysYTools.Tree.Parser

/-!
Fuel only bounds how deep the parser descends. A part of the parser that does not run out of fuel does the same
with more of it, so what it does is a property of the tokens alone.
-/

namespace SysYTools.Parser

variable {fuel : Nat}
variable {α β : Type}

/-- One or more parts with commas between them, given how a part and the rest of the list are read. -/
abbrev Step.separated (part : Step α) (list : Step (List α)) : Step (List α) :=
  part >>= fun first => sees .comma >>= fun found =>
    if found = true then take >>= fun _ => list >>= fun more => Pure.pure (first :: more) else Pure.pure [first]

/-- Wherever the first step does not run out of fuel, the second one does the same. -/
def Step.Within (less more : Step α) : Prop := ∀ state, less state ≠ .exhausted → more state = less state

namespace Step.Within

theorem refl (step : Step α) : step.Within step := fun _ _ => rfl

theorem trans {less middle more : Step α} (first : less.Within middle) (second : middle.Within more) :
    less.Within more := by
  intro state finished
  have same := first state finished
  rw [second state (same ▸ finished), same]

theorem exhausted (more : Step α) : Step.exhausted.Within more := fun _ finished => absurd rfl finished

theorem bind {less more : Step β} {next next' : β → Step α} (first : less.Within more)
    (further : ∀ value, (next value).Within (next' value)) : (less >>= next).Within (more >>= next') := by
  intro state finished
  change less.andThen next state ≠ .exhausted at finished
  change more.andThen next' state = less.andThen next state
  cases ran : less state with
  | accept value after =>
    have same := first state (by simp [ran])
    rw [andThen, ran] at finished
    rw [andThen, andThen, same, ran]
    exact further value after finished
  | reject =>
    have same := first state (by simp [ran])
    rw [andThen, andThen, same, ran]
  | exhausted =>
    rw [andThen, ran] at finished
    exact absurd rfl finished

theorem next {step : Step β} {next next' : β → Step α}
    (further : ∀ value, (next value).Within (next' value)) : (step >>= next).Within (step >>= next') :=
  (refl step).bind further

theorem map {less more : Step β} (within : less.Within more) (change : β → α) :
    (change <$> less).Within (change <$> more) :=
  within.bind fun value => refl (Pure.pure (change value))

theorem attempt {less more : Step α} (within : less.Within more) : less.attempt.Within more.attempt := by
  intro state finished
  cases ran : less state with
  | accept | reject =>
    have same := within state (by simp [ran])
    rw [Step.attempt, Step.attempt, same, ran]
  | exhausted =>
    rw [Step.attempt, ran] at finished
    exact absurd rfl finished

theorem separated {part part' : Step β} {rest rest' : Step (List β)} (parts : part.Within part')
    (rests : rest.Within rest') : (part.separated rest).Within (part'.separated rest') := by
  refine .bind parts fun first => .next fun found => ?_
  cases found with
  | false => exact .refl _
  | true => exact .next fun _ => rests.bind fun _ => .refl _

end Step.Within

/-! ## Expressions -/

structure ExpressionsWithin (less more : Nat) : Prop where
  expression : ∀ power, (expression less power).Within (expression more power)
  operators : ∀ power left, (operators less power left).Within (operators more power left)
  operand : (operand less).Within (operand more)
  expressionList : (expressionList less).Within (expressionList more)
  indexList : ∀ stop, (indexList less stop).Within (indexList more stop)

section

variable (within : ExpressionsWithin fuel (fuel + 1))
include within

private theorem operators_succ_within (power : Nat)
    (left : Expr) : (operators (fuel + 1) power left).Within (operators (fuel + 2) power left) := by
  simp only [operators]
  refine .next fun token => ?_
  cases BinaryOp.ofKind? token.kind with
  | none => exact .refl _
  | some =>
    dsimp only
    split
    · exact .refl _
    · exact .next fun _ => (within.expression _).bind fun right => within.operators power _

private theorem operand_succ_within : (operand (fuel + 1)).Within (operand (fuel + 2)) := by
  simp only [operand]
  refine .next fun token => ?_
  cases UnaryOp.ofKind? token.kind with
  | some => exact .next fun _ => (within.expression _).bind fun _ => .refl _
  | none =>
    dsimp only
    generalize token.kind = kind
    split
    · exact .refl _
    · exact .refl _
    · exact .next fun _ => (within.expression 0).bind fun _ => .refl _
    · refine .next fun _ => .next fun found => ?_
      cases found with
      | false => exact (within.indexList _).bind fun _ => .refl _
      | true =>
        refine .next fun _ => .next fun empty => ?_
        cases empty with
        | true => exact .refl _
        | false => exact within.expressionList.bind fun _ => .refl _
    · exact .refl _

private theorem indexList_succ_within (stop : Span) :
    (indexList (fuel + 1) stop).Within (indexList (fuel + 2) stop) := by
  simp only [indexList]
  refine .next fun found => ?_
  cases found with
  | false => exact .refl _
  | true =>
    refine .next fun _ => (within.expression 0).bind fun index => .next fun stop => ?_
    exact (within.indexList stop).bind fun _ => .refl _

end

theorem expressionsWithin_succ (fuel : Nat) : ExpressionsWithin fuel (fuel + 1) := by
  induction fuel with
  | zero => exact ⟨fun _ => .exhausted _, fun _ _ => .exhausted _, .exhausted _, .exhausted _, fun _ => .exhausted _⟩
  | succ _ within =>
    refine ⟨fun power => ?_, operators_succ_within within, operand_succ_within within, ?_,
      indexList_succ_within within⟩
    · simp only [expression]
      exact within.operand.bind fun left => within.operators power left
    · simp only [expressionList]
      exact .separated (within.expression 0) within.expressionList

theorem expression_within (fuel power : Nat) : (expression fuel power).Within (expression (fuel + 1) power) :=
  (expressionsWithin_succ fuel).expression power

theorem indexList_within (fuel : Nat) (stop : Span) : (indexList fuel stop).Within (indexList (fuel + 1) stop) :=
  (expressionsWithin_succ fuel).indexList stop

/-! ## Declarations -/

theorem initVal_initValList_within (fuel : Nat) :
    (initVal fuel).Within (initVal (fuel + 1)) ∧ (initValList fuel).Within (initValList (fuel + 1)) := by
  induction fuel with
  | zero => exact ⟨.exhausted _, .exhausted _⟩
  | succ fuel within =>
    refine ⟨?_, ?_⟩
    · simp only [initVal]
      refine .next fun found => ?_
      cases found with
      | false => exact (expression_within fuel 0).bind fun _ => .refl _
      | true =>
        refine .next fun _ => .next fun empty => ?_
        cases empty with
        | true => exact .refl _
        | false => exact within.2.bind fun _ => .refl _
    · simp only [initValList]
      exact .separated within.1 within.2

theorem varDef_within (fuel : Nat) : (varDef fuel).Within (varDef (fuel + 1)) := by
  simp only [varDef]
  refine .next fun name => (indexList_within fuel name.span).bind fun dims => .next fun found => ?_
  cases found with
  | false => exact .refl _
  | true => exact .next fun _ => (initVal_initValList_within fuel).1.bind fun _ => .refl _

theorem varDefList_within (fuel : Nat) : (varDefList fuel).Within (varDefList (fuel + 1)) := by
  induction fuel with
  | zero => exact .exhausted _
  | succ fuel within =>
    simp only [varDefList]
    exact .separated (varDef_within fuel) within

theorem decl_within (fuel : Nat) : (decl fuel).Within (decl (fuel + 1)) := by
  simp only [decl]
  refine .next fun start => .next fun isConst => ?_
  cases isConst with
  | false => exact .next fun _ => (varDefList_within fuel).bind fun _ => .refl _
  | true => exact .next fun _ => .next fun _ => (varDefList_within fuel).bind fun _ => .refl _

/-! ## Statements -/

theorem simpleStmt_within (fuel : Nat) : (simpleStmt fuel).Within (simpleStmt (fuel + 1)) := by
  simp only [simpleStmt]
  refine (expression_within fuel 0).bind fun left => .next fun found => ?_
  cases found with
  | false => exact .refl _
  | true =>
    refine .next fun sign => ?_
    cases left with
    | lval => exact (expression_within fuel 0).bind fun _ => .refl _
    | _ => exact .refl _

structure StatementsWithin (less more : Nat) : Prop where
  stmt : (stmt less).Within (stmt more)
  block : (block less).Within (block more)
  blockItems : (blockItems less).Within (blockItems more)
  blockItem : (blockItem less).Within (blockItem more)

section

variable (within : StatementsWithin fuel (fuel + 1))
include within

private theorem stmt_succ_within : (stmt (fuel + 1)).Within (stmt (fuel + 2)) := by
  simp only [stmt]
  refine .next fun token => ?_
  generalize token.kind = kind
  split
  · exact within.block.bind fun _ => .refl _
  · refine .next fun _ => .next fun _ => (expression_within fuel 0).bind fun _ => .next fun _ => ?_
    refine within.stmt.bind fun _ => .next fun found => ?_
    cases found with
    | false => exact .refl _
    | true => exact .next fun _ => within.stmt.bind fun _ => .refl _
  · refine .next fun _ => .next fun _ => (expression_within fuel 0).bind fun _ => .next fun _ => ?_
    exact within.stmt.bind fun _ => .refl _
  · exact .refl _
  · exact .refl _
  · refine .next fun _ => .next fun found => ?_
    cases found with
    | true => exact .refl _
    | false => exact ((expression_within fuel 0).map some).bind fun _ => .refl _
  · exact .refl _
  · exact simpleStmt_within fuel

private theorem blockItems_succ_within : (blockItems (fuel + 1)).Within (blockItems (fuel + 2)) := by
  simp only [blockItems]
  refine .next fun token => ?_
  split
  · exact .refl _
  · refine within.blockItem.attempt.bind fun result => ?_
    cases result with
    | none => exact .next fun _ => within.blockItems
    | some => exact within.blockItems.bind fun _ => .refl _

private theorem blockItem_succ_within : (blockItem (fuel + 1)).Within (blockItem (fuel + 2)) := by
  simp only [blockItem]
  refine .next fun token => ?_
  generalize token.kind = kind
  split
  · exact (decl_within fuel).bind fun _ => .refl _
  · exact (decl_within fuel).bind fun _ => .refl _
  · exact (decl_within fuel).bind fun _ => .refl _
  · exact within.stmt.bind fun _ => .refl _

end

theorem statementsWithin_succ (fuel : Nat) : StatementsWithin fuel (fuel + 1) := by
  induction fuel with
  | zero => exact ⟨.exhausted _, .exhausted _, .exhausted _, .exhausted _⟩
  | succ _ within =>
    refine ⟨stmt_succ_within within, ?_, blockItems_succ_within within, blockItem_succ_within within⟩
    simp only [block]
    exact .next fun _ => within.blockItems.bind fun _ => .refl _

/-! ## Functions and programs -/

theorem param_within (fuel : Nat) : (param fuel).Within (param (fuel + 1)) := by
  simp only [param]
  refine .next fun type => .next fun name => .next fun found => ?_
  cases found with
  | false => exact .refl _
  | true => exact .next fun _ => .next fun stop => (indexList_within fuel stop).bind fun _ => .refl _

theorem paramList_within (fuel : Nat) : (paramList fuel).Within (paramList (fuel + 1)) := by
  induction fuel with
  | zero => exact .exhausted _
  | succ fuel within =>
    simp only [paramList]
    exact .separated (param_within fuel) within

theorem funcDef_within (fuel : Nat) (returnType : ReturnType) :
    (funcDef fuel returnType).Within (funcDef (fuel + 1) returnType) := by
  have body : ∀ next : List BlockItem × Span → Step FuncDef,
      (block fuel >>= next).Within (block (fuel + 1) >>= next) :=
    fun next => (statementsWithin_succ fuel).block.bind fun _ => .refl _
  simp only [funcDef]
  refine .next fun type => .next fun name => .next fun _ => .next fun empty => ?_
  cases empty with
  | true => exact .next fun _ => .next fun _ => body _
  | false => exact (paramList_within fuel).bind fun _ => .next fun _ => body _

theorem item_within (fuel : Nat) : (item fuel).Within (item (fuel + 1)) := by
  have declared : (decl fuel >>= fun decl => pure (Item.decl decl)).Within
      (decl (fuel + 1) >>= fun decl => pure (Item.decl decl)) :=
    (decl_within fuel).bind fun _ => .refl _
  simp only [item]
  refine .next fun token => ?_
  split
  · exact declared
  · cases ReturnType.ofKind? token.kind with
    | none => exact .refl _
    | some type =>
      refine .next fun second => .next fun third => ?_
      split
      · exact (funcDef_within fuel type).bind fun _ => .refl _
      · split
        · exact .refl _
        · exact declared

theorem items_within (fuel : Nat) : (items fuel).Within (items (fuel + 1)) := by
  induction fuel with
  | zero => exact .exhausted _
  | succ fuel within =>
    simp only [items]
    refine .next fun found => ?_
    cases found with
    | true =>
      rw [if_pos rfl, if_pos rfl]
      exact .refl _
    | false =>
      refine (item_within fuel).attempt.bind fun result => ?_
      cases result with
      | none => exact .next fun _ => within
      | some => exact within.bind fun _ => .refl _

theorem Step.Within.of_le {part : Nat → Step α} (within : ∀ fuel, (part fuel).Within (part (fuel + 1)))
    {less more : Nat} (le : less ≤ more) : (part less).Within (part more) := by
  induction le with
  | refl => exact .refl _
  | step _ ih => exact ih.trans (within _)

end SysYTools.Parser
