import SysYTools.Proofs.Tree.MendingSteps
import SysYTools.Proofs.Tree.Reading

/-!
Two runs of the whole parser, of which the second finds a mark that the first one misses and has some more fuel. The
parts of the parser are taken in the order of their definitions, each group by induction on its fuel.
-/

namespace SysYTools.Parser.Mending

open List

variable {back body front rest : List Token} {first stop : Token} {other state : State} {α : Type}

variable {mending : Mending}

/-! ## Expressions -/

/-- Both expressions may stand on the left of an assignment, or neither. -/
inductive SameTarget : Expr → Expr → Prop where
  | target {reference reference' : Reference} {indices indices' : List Expr} {span span' : Span} :
      SameTarget (.lval reference indices span) (.lval reference' indices' span')
  | value {expr expr' : Expr} : (∀ reference indices span, expr ≠ .lval reference indices span) →
      (∀ reference indices span, expr' ≠ .lval reference indices span) → SameTarget expr expr'

theorem SameTarget.refl (expr : Expr) : SameTarget expr expr := by
  cases expr with
  | lval => exact .target
  | _ => exact .value (by simp) (by simp)

variable (mending) in
/-- What holds of the parts of the expression parser with some fuel. -/
structure ExpressionsFollow (fuel extra : Nat) : Prop where
  expression : ∀ power, mending.Follows .outer .inner SameTarget (expression fuel power)
    (expression (extra + fuel) power)
  operators : ∀ power left left', SameTarget left left' →
    mending.Follows .inner .inner SameTarget (operators fuel power left) (operators (extra + fuel) power left')
  operand : mending.Follows .outer .inner SameTarget (operand fuel) (operand (extra + fuel))
  expressionList : mending.Keeps .outer .inner (expressionList fuel) (expressionList (extra + fuel))
  indexList : ∀ start start', mending.Keeps .inner .inner (indexList fuel start) (indexList (extra + fuel) start')

/-- What the operators after an operand do where a token of a kind follows. -/
private def operatorsOn (fuel power : Nat) (left : Expr) (kind : TokenKind) : Step Expr :=
  match BinaryOp.ofKind? kind with
  | none => pure left
  | some op =>
    if op.leftPower < power then pure left
    else take >>= fun _ => expression fuel op.rightPower >>= fun right =>
      operators fuel power (.binary left op right (left.span.through right.span))

section Expressions

variable {fuel extra : Nat} (smaller : mending.ExpressionsFollow fuel extra)
include smaller

theorem expression_succ_follows (power : Nat) :
    mending.Follows .outer .inner SameTarget (expression (fuel + 1) power)
      (expression (extra + (fuel + 1)) power) := by
  rw [← Nat.add_assoc]
  simp only [expression]
  exact FollowsOn.bind smaller.operand SameTarget.refl fun left left' => smaller.operators power left left'

theorem operators_succ_follows (power : Nat) (left left' : Expr) (targets : SameTarget left left') :
    mending.Follows .inner .inner SameTarget (operators (fuel + 1) power left)
      (operators (extra + (fuel + 1)) power left') := by
  rw [← Nat.add_assoc]
  simp only [operators]
  refine @Follows.lookInner mending Expr .inner SameTarget (operatorsOn fuel power left)
    (operatorsOn (extra + fuel) power left') (pure left) (pure left') ?_ ?_ (.pure targets)
  · intro kind
    simp only [operatorsOn]
    cases found : BinaryOp.ofKind? kind with
    | none => exact .inr ⟨rfl, rfl⟩
    | some op =>
      by_cases weak : op.leftPower < power
      · simp only [if_pos weak]
        exact .inr ⟨trivial, trivial⟩
      · simp only [if_neg weak]
        have plain : kind ≠ .endOfInput := by
          rintro rfl
          cases found
        refine .inl (.takes plain fun _ _ _ => ?_)
        refine FollowsOn.bind (smaller.expression _).fresh SameTarget.refl fun right right' _ => ?_
        exact smaller.operators power _ _ (.value (by simp) (by simp))
  · rcases mending.fits.kind_cases with isMark | isMark | isMark <;> rw [isMark] <;> rfl

theorem operand_succ_follows :
    mending.Follows .outer .inner SameTarget (operand (fuel + 1)) (operand (extra + (fuel + 1))) := by
  rw [← Nat.add_assoc]
  simp only [operand]
  refine .look ?_
  intro token token' kinds
  rw [← kinds]
  cases unary : UnaryOp.ofKind? token.kind with
  | some =>
    have plain : token.kind ≠ .endOfInput := by
      intro stop
      rw [stop] at unary
      cases unary
    refine .takes plain fun _ _ _ => ?_
    refine FollowsOn.bind (smaller.expression _).fresh SameTarget.refl fun _ _ _ => ?_
    exact .pure (.value (by simp) (by simp))
  | none =>
    dsimp only
    split
    next found => exact .takes (by simp [found]) fun _ _ _ => .pure (.value (by simp) (by simp))
    next found => exact .takes (by simp [found]) fun _ _ _ => .pure (.value (by simp) (by simp))
    next found =>
      refine .takes (by simp [found]) fun _ _ _ => ?_
      refine FollowsOn.bind (smaller.expression 0).fresh SameTarget.refl fun value value' targets => ?_
      exact FollowsOn.seq closeParen_follows fun _ _ => .pure targets
    next found =>
      refine .takes (by simp [found]) fun _ _ _ => ?_
      refine .ifTake (by decide) (mark_kind_ne (by decide) (by decide) (by decide)) ?_ ?_
      · intro _ _ _
        refine FollowsOn.fresh (Follows.between (by decide) closeParen_follows smaller.expressionList ?_)
        exact fun _ _ _ _ => .pure (.value (by simp) (by simp))
      · exact FollowsOn.seq (smaller.indexList _ _) fun _ _ => .pure .target
    · exact Follows.anywhere (fail_follows rfl (by intro kind mends; cases mends))

theorem expressionList_succ_follows : mending.Keeps .outer .inner (expressionList (fuel + 1))
      (expressionList (extra + (fuel + 1))) := by
  rw [← Nat.add_assoc]
  simp only [expressionList]
  exact .separated SameTarget.refl (smaller.expression 0) smaller.expressionList

theorem indexList_succ_follows (start start' : Span) : mending.Keeps .inner .inner (indexList (fuel + 1) start)
      (indexList (extra + (fuel + 1)) start') := by
  rw [← Nat.add_assoc]
  simp only [indexList]
  refine .ifTake (by decide) (mark_kind_ne (by decide) (by decide) (by decide)) ?_ (.pure trivial)
  intro _ _ _
  refine FollowsOn.bind (smaller.expression 0).fresh SameTarget.refl fun _ _ _ => ?_
  refine FollowsOn.seq closeSquare_follows fun stop stop' => ?_
  exact FollowsOn.finish (smaller.indexList stop stop')

end Expressions

theorem expressionsFollow (fuel extra : Nat) : mending.ExpressionsFollow fuel extra := by
  induction fuel with
  | zero =>
    exact {
      expression := fun _ => .exhausted _
      operators := fun _ _ _ _ => .exhausted _
      operand := .exhausted _
      expressionList := .exhausted _
      indexList := fun _ _ => .exhausted _ }
  | succ _ smaller =>
    exact {
      expression := expression_succ_follows smaller
      operators := operators_succ_follows smaller
      operand := operand_succ_follows smaller
      expressionList := expressionList_succ_follows smaller
      indexList := indexList_succ_follows smaller }

/-! ## Declarations -/

theorem initVal_initValList_follow (fuel extra : Nat) :
    mending.Keeps .outer .inner (initVal fuel) (initVal (extra + fuel)) ∧
    mending.Keeps .outer .inner (initValList fuel) (initValList (extra + fuel)) := by
  induction fuel with
  | zero => exact ⟨.exhausted _, .exhausted _⟩
  | succ fuel ih =>
    obtain ⟨initFollows, listFollows⟩ := ih
    rw [← Nat.add_assoc]
    constructor
    · simp only [initVal]
      refine .seesOuter ?_ ?_
      · refine .takes (by decide) fun _ _ _ => ?_
        refine FollowsOn.fresh (Follows.between (by decide) closeBrace_follows listFollows ?_)
        exact fun _ _ _ _ => .pure trivial
      · exact FollowsOn.bind ((expressionsFollow fuel extra).expression 0) SameTarget.refl
          fun _ _ _ => .pure trivial
    · simp only [initValList]
      exact .separated (fun _ => trivial) initFollows listFollows

theorem varDef_follows (fuel extra : Nat) : mending.Keeps .outer .inner (varDef fuel) (varDef (extra + fuel)) := by
  refine FollowsOn.bind (expect_follows (by decide) _) (fun _ => rfl) fun name name' _ => ?_
  refine FollowsOn.seq ((expressionsFollow fuel extra).indexList _ _) fun _ _ => ?_
  refine .ifTake (by decide) (mark_kind_ne (by decide) (by decide) (by decide)) ?_ (.pure trivial)
  intro _ _ _
  exact FollowsOn.finish (initVal_initValList_follow fuel extra).1.fresh

theorem varDefList_follows (fuel extra : Nat) :
    mending.Keeps .outer .inner (varDefList fuel) (varDefList (extra + fuel)) := by
  induction fuel with
  | zero => exact .exhausted _
  | succ fuel ih =>
    rw [← Nat.add_assoc]
    simp only [varDefList]
    exact .separated (fun _ => trivial) (varDef_follows fuel extra) ih

theorem decl_follows (fuel extra : Nat) : mending.Keeps .outer .outer (decl fuel) (decl (extra + fuel)) := by
  have defs : ∀ (isConst : Bool) (token token' : Token),
      mending.Keeps .outer .outer
        (baseType >>= fun typed => varDefList fuel >>= fun defs => semicolon >>= fun stop =>
          pure ({ isConst, baseType := typed.1, defs, span := token.span.through stop } : Decl))
        (baseType >>= fun typed => varDefList (extra + fuel) >>= fun defs => semicolon >>= fun stop =>
          pure ({ isConst, baseType := typed.1, defs, span := token'.span.through stop } : Decl)) := by
    intro isConst token token'
    refine FollowsOn.seq baseType_follows fun _ _ => ?_
    refine FollowsOn.seq (varDefList_follows fuel extra).fresh fun _ _ => ?_
    exact FollowsOn.finish semicolon_follows
  simp only [decl]
  refine .look ?_
  intro token token' kinds
  refine FollowsOn.sees ?_ ?_
  · simp only [if_true]
    exact .takes (by decide) fun _ _ _ => (defs true token token').fresh
  · simp only [Bool.false_eq_true, if_false]
    exact (defs false token token').anywhere

/-! ## Statements -/

theorem simpleStmt_follows (fuel extra : Nat) :
    mending.Keeps .outer .outer (simpleStmt fuel) (simpleStmt (extra + fuel)) := by
  simp only [simpleStmt]
  refine FollowsOn.bind ((expressionsFollow fuel extra).expression 0) SameTarget.refl ?_
  intro left left' targets
  refine .ifTake (by decide) (mark_kind_ne (by decide) (by decide) (by decide)) ?_ ?_
  · intro _ _ _
    cases targets with
    | target =>
      dsimp only
      refine FollowsOn.bind ((expressionsFollow fuel extra).expression 0).fresh SameTarget.refl fun _ _ _ => ?_
      exact FollowsOn.finish semicolon_follows
    | value other =>
      split
      · exact absurd rfl (other _ _ _)
      · exact fail_follows rfl (by intro kind mends; cases mends)
  · exact FollowsOn.finish semicolon_follows

variable (mending) in
/-- What holds of the parts of the statement parser with some fuel. -/
structure StatementsFollow (fuel extra : Nat) : Prop where
  stmt : mending.Keeps .outer .outer (stmt fuel) (stmt (extra + fuel))
  block : mending.Keeps .outer .outer (block fuel) (block (extra + fuel))
  blockItems : mending.Keeps .outer .outer (blockItems fuel) (blockItems (extra + fuel))
  blockItem : mending.Keeps .outer .outer (blockItem fuel) (blockItem (extra + fuel))

section Statements

variable {fuel extra : Nat} (smaller : mending.StatementsFollow fuel extra)
include smaller

theorem stmt_succ_follows : mending.Keeps .outer .outer (stmt (fuel + 1)) (stmt (extra + (fuel + 1))) := by
  rw [← Nat.add_assoc]
  simp only [stmt]
  refine .look ?_
  intro token token' kinds
  rw [← kinds]
  have expression : mending.Follows .outer .inner SameTarget (Parser.expression fuel 0)
      (Parser.expression (extra + fuel) 0) := (expressionsFollow fuel extra).expression 0
  split
  next found => exact Follows.anywhere (FollowsOn.finish smaller.block)
  next found =>
    refine .takes (by simp [found]) fun _ _ _ => ?_
    refine FollowsOn.seq (openParen_follows "if").fresh fun _ _ => ?_
    refine FollowsOn.bind expression SameTarget.refl fun _ _ _ => ?_
    refine FollowsOn.seq closeParen_follows fun _ _ => ?_
    refine FollowsOn.seq smaller.stmt.fresh fun _ _ => ?_
    refine .seesOuter ?_ (.pure trivial)
    refine .takes (by decide) fun _ _ _ => ?_
    exact FollowsOn.finish smaller.stmt.fresh
  next found =>
    refine .takes (by simp [found]) fun _ _ _ => ?_
    refine FollowsOn.seq (openParen_follows "while").fresh fun _ _ => ?_
    refine FollowsOn.bind expression SameTarget.refl fun _ _ _ => ?_
    refine FollowsOn.seq closeParen_follows fun _ _ => ?_
    exact FollowsOn.finish smaller.stmt.fresh
  next found =>
    refine .takes (by simp [found]) fun _ _ _ => ?_
    exact FollowsOn.finish semicolon_follows
  next found =>
    refine .takes (by simp [found]) fun _ _ _ => ?_
    exact FollowsOn.finish semicolon_follows
  next found =>
    refine .takes (by simp [found]) fun _ _ _ => ?_
    refine FollowsOn.fresh (Follows.between (by decide) semicolon_follows ?_ fun _ _ _ _ => .pure trivial)
    exact FollowsOn.bind expression SameTarget.refl fun _ _ _ => .pure trivial
  next found => exact FollowsOn.settle (.takes (by simp [found]) fun _ _ _ => .pure trivial)
  · exact (simpleStmt_follows fuel extra).anywhere

theorem block_succ_follows : mending.Keeps .outer .outer (block (fuel + 1)) (block (extra + (fuel + 1))) := by
  rw [← Nat.add_assoc]
  simp only [block]
  refine FollowsOn.bind (expect_follows (by decide) _).settle (fun _ => rfl) fun _ _ _ => ?_
  refine FollowsOn.seq smaller.blockItems fun _ _ => ?_
  exact FollowsOn.finish closeBlock_follows

theorem blockItems_succ_follows :
    mending.Keeps .outer .outer (blockItems (fuel + 1)) (blockItems (extra + (fuel + 1))) := by
  rw [← Nat.add_assoc]
  simp only [blockItems]
  refine .look ?_
  intro token token' kinds
  rw [← kinds]
  split
  · exact Follows.anywhere (.pure trivial)
  · refine Follows.anywhere (FollowsOn.bind smaller.blockItem.attempt (fun _ => rfl) ?_)
    intro value value' parallel
    cases value with
    | none =>
      cases value' with
      | some => cases parallel
      | none => exact FollowsOn.seq (skipItem_follows false) fun _ _ => smaller.blockItems
    | some =>
      cases value' with
      | none => cases parallel
      | some => exact FollowsOn.finish smaller.blockItems

theorem blockItem_succ_follows :
    mending.Keeps .outer .outer (blockItem (fuel + 1)) (blockItem (extra + (fuel + 1))) := by
  rw [← Nat.add_assoc]
  simp only [blockItem]
  refine .look ?_
  intro token token' kinds
  rw [← kinds]
  have declared : mending.Keeps .outer .outer
      (decl fuel >>= fun decl => pure (BlockItem.decl decl))
      (decl (extra + fuel) >>= fun decl => pure (BlockItem.decl decl)) :=
    FollowsOn.finish (decl_follows fuel extra)
  split
  · exact declared.anywhere
  · exact declared.anywhere
  · exact declared.anywhere
  · exact Follows.anywhere (FollowsOn.finish smaller.stmt)

end Statements

theorem statementsFollow (fuel extra : Nat) : mending.StatementsFollow fuel extra := by
  induction fuel with
  | zero =>
    exact {
      stmt := .exhausted _
      block := .exhausted _
      blockItems := .exhausted _
      blockItem := .exhausted _ }
  | succ _ smaller =>
    exact {
      stmt := stmt_succ_follows smaller
      block := block_succ_follows smaller
      blockItems := blockItems_succ_follows smaller
      blockItem := blockItem_succ_follows smaller }

/-! ## Functions and programs -/

theorem param_follows (fuel extra : Nat) : mending.Keeps .outer .inner (param fuel) (param (extra + fuel)) := by
  simp only [param]
  refine FollowsOn.seq baseType_follows fun _ _ => ?_
  refine FollowsOn.bind (expect_follows (by decide) _).fresh (fun _ => rfl) fun _ _ _ => ?_
  refine .ifTake (by decide) (mark_kind_ne (by decide) (by decide) (by decide)) ?_ (.pure trivial)
  intro _ _ _
  refine FollowsOn.seq closeSquare_follows fun stop stop' => ?_
  exact FollowsOn.finish ((expressionsFollow fuel extra).indexList stop stop')

theorem paramList_follows (fuel extra : Nat) :
    mending.Keeps .outer .inner (paramList fuel) (paramList (extra + fuel)) := by
  induction fuel with
  | zero => exact .exhausted _
  | succ fuel ih =>
    rw [← Nat.add_assoc]
    simp only [paramList]
    exact .separated (fun _ => trivial) (param_follows fuel extra) ih

/-- A function from its opening parenthesis on. -/
def funcTail (fuel : Nat) (returnType : ReturnType) (type name : Token) : Step FuncDef := do
  let _ ← expect .leftParen .openParen
  let params ← if ← sees .rightParen then pure [] else paramList fuel
  let _ ← closeParen
  let (body, bodySpan) ← block fuel
  return {
    returnType, name := name.value, params, body, bodySpan
    span := type.span.through bodySpan, nameSpan := name.span, typeSpan := type.span }

theorem funcTail_follows (fuel extra : Nat) (returnType : ReturnType) (type type' name name' : Token) :
    mending.Keeps .outer .outer (funcTail fuel returnType type name)
      (funcTail (extra + fuel) returnType type' name') := by
  refine FollowsOn.bind (expect_follows (by decide) _) (fun _ => rfl) fun _ _ _ => ?_
  refine FollowsOn.fresh (Follows.between (by decide) closeParen_follows (paramList_follows fuel extra) ?_)
  intro _ _ _ _
  exact FollowsOn.finish (statementsFollow fuel extra).block.fresh

theorem funcDef_follows (fuel extra : Nat) (returnType : ReturnType) :
    mending.FollowsOn (· ≠ .endOfInput) .outer .outer (fun _ _ => True) (funcDef fuel returnType)
      (funcDef (extra + fuel) returnType) := by
  refine FollowsOn.bind take_follows (fun _ => rfl) fun type type' _ => ?_
  refine FollowsOn.bind (expect_follows (by decide) _).fresh (fun _ => rfl) fun name name' _ => ?_
  exact (funcTail_follows fuel extra returnType type type' name name').fresh

theorem funcDef_of_name (fuel : Nat) (returnType : ReturnType) (named : state.advance.current.kind = .identifier) :
    funcDef fuel returnType state =
      funcTail fuel returnType state.current state.advance.current state.advance.advance := by
  have run : funcDef fuel returnType state = (expect .identifier .functionName >>= fun name =>
      funcTail fuel returnType state.current name) state.advance := rfl
  have found : expect .identifier .functionName state.advance =
      .accept state.advance.current state.advance.advance := by
    change (if state.advance.current.kind = .identifier then take else _) state.advance = _
    rw [if_pos named]
    rfl
  rw [run]
  change Step.andThen _ _ _ = _
  rw [Step.andThen, found]

/-! ### Looking for a function -/

/-- The kind at a distance in a list of kinds that is left. -/
def ahead (kinds : List TokenKind) (distance : Nat) : TokenKind :=
  (kinds.drop distance).headD (kinds.getLastD .endOfInput)

theorem kindAhead_eq (state : State) (distance : Nat) :
    state.kindAhead distance = ahead (kinds state.tokens) distance := by
  have last : (kinds state.tokens).getLastD .endOfInput =
      ((state.current :: state.rest).getLast (cons_ne_nil _ _)).kind := by
    rw [getLastD_eq_getLast?, kinds, getLast?_map, State.tokens,
      getLast?_eq_some_getLast (cons_ne_nil state.current state.rest)]
    rfl
  rw [ahead, last, kinds, ← map_drop, State.kindAhead, State.tokens]
  cases (state.current :: state.rest).drop distance with
  | nil | cons => rfl

/-- The tokens ahead start a function. -/
def StartsFunction (state : State) : Prop := state.kindAhead 1 = .identifier ∧ state.kindAhead 2 = .leftParen

theorem Before.faded_of_startsFunction (before : mending.Before state other) (starts : StartsFunction state)
    (some : back ≠ []) (someFront : front ≠ []) (few : front.length ≤ 2) (tokens : state.tokens = front ++ back)
    (clear : mending.Clear back) : state.advance.current.kind = .identifier ∧ mending.Faded state.advance.advance := by
  obtain ⟨first, _, rfl⟩ := exists_cons_of_ne_nil someFront
  have plain : first.kind ≠ .endOfInput := before.closed.kind_ne_of_tokens tokens (by simp [some])
  obtain ⟨here, -⟩ := List.cons.inj tokens
  obtain ⟨closed, left, -, reports⟩ := before.closed.advance (here ▸ plain)
  have named : state.advance.current.kind = .identifier :=
    (@State.kindAhead_of_tokens state 1 _ (by rw [left]; rfl)).symm.trans starts.1
  obtain ⟨closed', left', -, reports'⟩ := closed.advance (named ▸ by decide)
  refine ⟨named, closed', ?_, .inr ?_⟩
  · rw [reports', reports, getElem?_eq_none before.early]
    simp
  · intro token member
    apply clear
    have suffix : state.advance.advance.tokens <:+ back := by
      have whole : state.tokens = [state.current, state.advance.current] ++ state.advance.advance.tokens := by
        rw [left, left']
        rfl
      have dropped : state.advance.advance.tokens = state.tokens.drop 2 := by rw [whole]; rfl
      rw [dropped, tokens, drop_append, drop_of_length_le few, nil_append]
      exact drop_suffix ..
    exact suffix.subset member

theorem ahead_insert {front back : List TokenKind} {mark : TokenKind} (named : mark ≠ .identifier)
    (opens : mark ≠ .leftParen) (some : front ≠ []) :
    front.length ≤ 2 ∧
        ¬ (ahead (front ++ mark :: back) 1 = .identifier ∧ ahead (front ++ mark :: back) 2 = .leftParen) ∨
      ∀ distance ≤ 2, ahead (front ++ mark :: back) distance = ahead (front ++ back) distance := by
  match front, some with
  | [first], _ =>
    refine .inl ⟨by simp, ?_⟩
    rintro ⟨sees, -⟩
    exact named sees
  | [first, second], _ =>
    refine .inl ⟨by simp, ?_⟩
    rintro ⟨-, sees⟩
    exact opens sees
  | first :: second :: third :: front, _ =>
    refine .inr fun distance near => ?_
    match distance, near with
    | 0, _ => rfl
    | 1, _ => rfl
    | 2, _ => rfl

theorem Tied.startsFunction (tied : mending.Tied .outer state other) :
    (StartsFunction state ↔ StartsFunction other) ∨ StartsFunction state ∧ state.advance.current.kind = .identifier ∧
        mending.Faded state.advance.advance := by
  rcases tied with before | past
  · obtain ⟨front, back, _, _, some, someBack, tokens, tokens', same, sameBack, clear⟩ := before.split
    have clearBack : mending.Clear back := fun token member => clear token (mem_append_right _ member)
    have here : kinds state.tokens = kinds front ++ kinds back := by
      rw [tokens, kinds, map_append]
      rfl
    have there : kinds other.tokens = kinds front ++ mending.mark.kind :: kinds back := by
      rw [tokens', same, sameBack, kinds, map_append]
      rfl
    have named : mending.mark.kind ≠ .identifier := mark_kind_ne (by decide) (by decide) (by decide)
    have opens : mending.mark.kind ≠ .leftParen := mark_kind_ne (by decide) (by decide) (by decide)
    rcases @ahead_insert (kinds front) (kinds back) _ named opens (by simpa [kinds] using some) with
      ⟨few, hidden⟩ | alike
    · by_cases starts : StartsFunction state
      · have few : front.length ≤ 2 := by simpa [kinds] using few
        exact .inr ⟨starts, before.faded_of_startsFunction starts someBack some few tokens clearBack⟩
      · refine .inl ⟨fun yes => absurd yes starts, fun yes => absurd yes ?_⟩
        simpa only [StartsFunction, kindAhead_eq, there] using hidden
    · left
      simp only [StartsFunction, kindAhead_eq, here, there, alike 1 (by decide), alike 2 (by decide)]
  · left
    simp only [StartsFunction, kindAhead_eq, past.tokens]

theorem FollowsOn.ifFunction {on : TokenKind → Prop} {same : α → α → Prop} {found found' missing missing' : Step α}
    (yes : mending.FollowsOn on .outer .outer same found found')
    (passes : ∀ state : State, state.advance.current.kind = .identifier →
      mending.Faded state.advance.advance → mending.Sinks .outer found state)
    (no : mending.FollowsOn on .outer .outer same missing missing') :
    mending.FollowsOn on .outer .outer same
      (kindAhead 1 >>= fun first => kindAhead 2 >>= fun second =>
        if first = .identifier ∧ second = .leftParen then found else missing)
      (kindAhead 1 >>= fun first => kindAhead 2 >>= fun second =>
        if first = .identifier ∧ second = .leftParen then found' else missing') := by
  have run : ∀ (found missing : Step α) (state : State), (kindAhead 1 >>= fun first =>
      kindAhead 2 >>= fun second => if first = .identifier ∧ second = .leftParen then found else missing) state =
      (if state.kindAhead 1 = .identifier ∧ state.kindAhead 2 = .leftParen then found else missing : Step α)
        state :=
    fun _ _ _ => rfl
  have runYes : ∀ (found missing : Step α) (state : State), StartsFunction state → (kindAhead 1 >>=
      fun first => kindAhead 2 >>= fun second =>
        if first = .identifier ∧ second = .leftParen then found else missing) state = found state :=
    fun found missing state starts => (run ..).trans (congrFun (if_pos starts) state)
  have runNo : ∀ (found missing : Step α) (state : State), ¬ StartsFunction state → (kindAhead 1 >>=
      fun first => kindAhead 2 >>= fun second =>
        if first = .identifier ∧ second = .leftParen then found else missing) state = missing state :=
    fun found missing state starts => (run ..).trans (congrFun (if_neg starts) state)
  constructor
  · intro state here faded
    unfold Sinks
    by_cases starts : StartsFunction state
    · rw [runYes _ _ _ starts]
      exact yes.sinks state here faded
    · rw [runNo _ _ _ starts]
      exact no.sinks state here faded
  · intro state state' here tied
    rcases Tied.startsFunction tied with agree | ⟨starts, named, faded⟩
    · unfold Meets
      by_cases starts : StartsFunction state
      · rw [runYes _ _ _ starts, runYes _ _ _ (agree.mp starts)]
        exact yes.meets state state' here tied
      · rw [runNo _ _ _ starts, runNo _ _ _ (starts ∘ agree.mpr)]
        exact no.meets state state' here tied
    · refine .of_sinks ?_ _ _
      unfold Sinks
      rw [runYes _ _ _ starts]
      exact passes state named faded

theorem item_follows (fuel extra : Nat) : mending.Keeps .outer .outer (item fuel) (item (extra + fuel)) := by
  have declared : mending.Keeps .outer .outer
      (decl fuel >>= fun decl => pure (Item.decl decl))
      (decl (extra + fuel) >>= fun decl => pure (Item.decl decl)) :=
    FollowsOn.finish (decl_follows fuel extra)
  simp only [item]
  refine .look ?_
  intro token token' kinds
  rw [← kinds]
  split
  · exact declared.anywhere
  · cases typed : ReturnType.ofKind? token.kind with
    | none => exact Follows.anywhere (fail_follows rfl (by intro kind mends; cases mends))
    | some type =>
      have plain : token.kind ≠ .endOfInput := by
        intro stop
        rw [stop] at typed
        cases typed
      refine .ifFunction ?_ ?_ ?_
      · refine FollowsOn.finish ((funcDef_follows fuel extra type).mono ?_)
        exact fun kind same => same ▸ plain
      · intro state named faded
        have sunk : mending.Sinks .outer (funcDef fuel type) state := by
          unfold Sinks
          rw [funcDef_of_name fuel type named]
          exact (funcTail_follows fuel extra type _ state.current _ state.advance.current).sinks _ trivial faded
        exact sunk.bind fun _ _ misses => misses
      · split
        · exact Follows.anywhere (fail_follows rfl (by intro kind mends; cases mends))
        · exact declared.anywhere

theorem items_follow (fuel extra : Nat) : mending.Keeps .outer .outer (items fuel) (items (extra + fuel)) := by
  induction fuel with
  | zero => exact .exhausted _
  | succ fuel ih =>
    rw [← Nat.add_assoc]
    simp only [items]
    refine .seesOuter (Follows.anywhere (.pure trivial)) ?_
    refine FollowsOn.bind (item_follows fuel extra).attempt (fun _ => rfl) ?_
    intro value value' parallel
    cases value with
    | none =>
      cases value' with
      | some => cases parallel
      | none => exact FollowsOn.seq (skipItem_follows true) fun _ _ => ih
    | some =>
      cases value' with
      | none => cases parallel
      | some => exact FollowsOn.finish ih

/-! ## Whole programs -/

theorem closed_start (tokens : body ++ [stop] = first :: rest) (stops : stop.kind = .endOfInput)
    (plain : ∀ token ∈ body, token.kind ≠ .endOfInput) : State.Closed ⟨none, first, rest, []⟩ :=
  ⟨body, stop, tokens.symm, stops, plain⟩

/-- A step that rejects in no state. -/
def Settles {α : Type} (step : Step α) : Prop := ∀ state final, step state ≠ .reject final

theorem Settles.bind {β : Type} {step : Step β} {next : β → Step α} (first : Settles step)
    (second : ∀ value, Settles (next value)) : Settles (step >>= next) := by
  intro state final
  change Step.andThen step next state ≠ _
  rw [Step.andThen]
  cases ran : step state with
  | accept value after => exact second value after final
  | reject after => exact absurd ran (first state after)
  | exhausted => exact fun rejected => by cases rejected

theorem Settles.attempt {α : Type} (step : Step α) : Settles step.attempt := by
  intro state final
  rw [Step.attempt]
  cases step state with
  | _ => exact fun rejected => by cases rejected

theorem items_settle (fuel : Nat) : Settles (items fuel) := by
  induction fuel with
  | zero => exact fun _ _ rejected => by cases rejected
  | succ _ ih =>
    simp only [items]
    refine .bind (fun _ _ rejected => by cases rejected) fun stops => ?_
    split
    · exact fun _ _ rejected => by cases rejected
    · refine .bind (.attempt _) fun value => ?_
      cases value with
      | none => exact .bind (fun _ _ rejected => by cases rejected) fun _ => ih
      | some => exact ih.bind fun _ _ _ rejected => by cases rejected

theorem exists_final {file : String} (tokens : body ++ [stop] = first :: rest) (stops : stop.kind = .endOfInput)
    (plain : ∀ token ∈ body, token.kind ≠ .endOfInput) {reports : List Report}
    (failed : CompUnit.ofTokens file (first :: rest) = .error reports) :
    ∃ (list : List Item) (final : State), final.reports = reports ∧
      items (fuelFor (first :: rest).length) ⟨none, first, rest, []⟩ = .accept list final := by
  have held := items_holds (fuelFor (first :: rest).length) ⟨none, first, rest, []⟩
    (closed_start tokens stops plain) (by simp only [fuelFor, length_cons]; omega)
  unfold Step.Holds at held
  simp only [CompUnit.ofTokens] at failed
  cases ran : items (fuelFor (first :: rest).length) ⟨none, first, rest, []⟩ with
  | accept list final =>
    rw [ran] at failed
    dsimp only at failed
    split at failed
    · cases failed
    · exact ⟨list, final, Except.error.inj failed, rfl⟩
  | reject final => exact absurd ran (items_settle _ _ final)
  | exhausted =>
    rw [ran] at held
    exact held.elim

theorem exists_token_of_report {file : String} {body : List Token} {stop : Token}
    (stops : stop.kind = .endOfInput) (plain : ∀ token ∈ body, token.kind ≠ .endOfInput)
    {reports : List Report} (failed : CompUnit.ofTokens file (body ++ [stop]) = .error reports)
    (given : reports[mending.index]? = some mending.target) : ∃ token ∈ body, token.span = mending.target.span := by
  by_contra absent
  obtain ⟨first, rest, tokens⟩ : ∃ first rest, body ++ [stop] = first :: rest := exists_cons_of_ne_nil (by simp)
  rw [tokens] at failed
  obtain ⟨_, _, rfl, ran⟩ := exists_final tokens stops plain failed
  have faded : mending.Faded ⟨none, first, rest, []⟩ := by
    refine ⟨closed_start tokens stops plain, by simp, .inr ?_⟩
    intro token member inner named
    have member : token ∈ body ++ [stop] := tokens ▸ member
    rcases mem_append.mp member with member | member
    · exact absent ⟨token, member, named⟩
    · rw [mem_singleton.mp member] at inner
      exact absurd stops inner
  have follows := @items_follow mending (fuelFor (first :: rest).length) 0
  have sunk := follows.sinks _ trivial faded
  unfold Sinks at sunk
  rw [ran] at sunk
  exact Faded.differs sunk given

theorem Before.start {front' back' : List Token} {stop' first' : Token} {rest' : List Token}
    (tokens : front ++ back ++ [stop] = first :: rest)
    (tokens' : front' ++ mending.mark :: back' ++ [stop'] = first' :: rest') (stops : stop.kind = .endOfInput)
    (stops' : stop'.kind = .endOfInput) (plain : ∀ token ∈ front ++ back, token.kind ≠ .endOfInput)
    (some : front ≠ []) (elsewhere : ∀ token ∈ front.dropLast ++ back, token.span ≠ mending.target.span)
    (sameFront : kinds front = kinds front') (sameBack : kinds back = kinds back') :
    mending.Before ⟨none, first, rest, []⟩ ⟨none, first', rest', []⟩ where
  closed := closed_start tokens stops plain
  split := by
    refine ⟨front, back ++ [stop], front', back' ++ [stop'], some, by simp, ?_, ?_, sameFront, ?_, ?_⟩
    · rw [State.tokens, ← tokens, append_assoc]
    · rw [State.tokens, ← tokens', append_assoc, cons_append]
    · simp only [kinds, map_append, map_cons, map_nil, stops, stops'] at sameBack ⊢
      rw [sameBack]
    · intro token member inner
      rw [← append_assoc] at member
      rcases mem_append.mp member with member | member
      · exact elsewhere token member
      · rw [mem_singleton.mp member] at inner
        exact absurd stops inner
  codes := rfl
  early := Nat.zero_le _
  behind := by simp

/-- With the mark that a report misses put in behind the token that it names, the other reports are left,
with their codes and in their order, and nothing else is reported. -/
theorem ofTokens_mended {file file' : String} {front back front' back' : List Token} {stop stop' : Token}
    (stops : stop.kind = .endOfInput) (stops' : stop'.kind = .endOfInput)
    (plain : ∀ token ∈ front ++ back, token.kind ≠ .endOfInput) {reports : List Report}
    (failed : CompUnit.ofTokens file (front ++ back ++ [stop]) = .error reports)
    (given : reports[mending.index]? = some mending.target) (some : front ≠ [])
    (elsewhere : ∀ token ∈ front.dropLast ++ back, token.span ≠ mending.target.span)
    (sameFront : kinds front = kinds front') (sameBack : kinds back = kinds back') :
    (∃ unit, CompUnit.ofTokens file' (front' ++ mending.mark :: back' ++ [stop']) = .ok unit ∧
        reports.eraseIdx mending.index = []) ∨
      ∃ reports', CompUnit.ofTokens file' (front' ++ mending.mark :: back' ++ [stop']) = .error reports' ∧
        reports.eraseIdx mending.index ≠ [] ∧
        reports'.map (·.problem.code) = (reports.eraseIdx mending.index).map (·.problem.code) := by
  obtain ⟨first, rest, tokens⟩ : ∃ first rest, front ++ back ++ [stop] = first :: rest :=
    exists_cons_of_ne_nil (by simp)
  obtain ⟨first', rest', tokens'⟩ : ∃ first rest, front' ++ mending.mark :: back' ++ [stop'] = first :: rest :=
    exists_cons_of_ne_nil (by simp)
  rw [tokens] at failed
  rw [tokens']
  obtain ⟨_, final, rfl, ran⟩ := exists_final tokens stops plain failed
  have start : mending.Before ⟨none, first, rest, []⟩ ⟨none, first', rest', []⟩ :=
    .start tokens tokens' stops stops' plain some elsewhere sameFront sameBack
  -- the second run has one token more, and so it has more fuel
  have fuel : fuelFor (first' :: rest').length = 16 + fuelFor (first :: rest).length := by
    have sizes := congrArg List.length sameFront
    have sizesBack := congrArg List.length sameBack
    simp only [kinds, length_map] at sizes sizesBack
    rw [← tokens, ← tokens', fuelFor, fuelFor]
    simp only [length_append, length_cons, length_nil]
    omega
  have follows := @items_follow mending (fuelFor (first :: rest).length) 16
  have met := follows.meets _ _ trivial (.inl start)
  rw [← fuel] at met
  unfold Meets at met
  rw [ran] at met
  rcases met with faded | ⟨_, final', ran', -, tied⟩
  · exact absurd given (Faded.differs faded)
  have codes : final'.reports.map (·.problem.code) =
      (final.reports.eraseIdx mending.index).map (·.problem.code) := by
    rcases tied with before | past
    · rw [getElem?_eq_none before.early] at given
      cases given
    · exact past.codes.trans (eraseIdx_map _ _ _)
  simp only [CompUnit.ofTokens]
  rw [ran']
  dsimp only
  split
  next none =>
    refine .inl ⟨_, rfl, ?_⟩
    rw [List.isEmpty_iff.mp none] at codes
    simpa using codes.symm
  next some =>
    refine .inr ⟨_, rfl, ?_, codes⟩
    rintro none
    rw [none] at codes
    exact some (by simpa using codes)

end SysYTools.Parser.Mending
