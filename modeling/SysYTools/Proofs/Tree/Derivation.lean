import SysYTools.Proofs.Tree.Steps

/-!
What the parser reads without a report is derived by the grammar, and the tree it gives is the tree of the
derivation. The parts of the parser are taken in the order of their definitions, each group by induction on
its fuel. The same induction shows that the fuel of a program is never used up.

For expressions the link between binding powers and layers carries the induction: an operator that may
follow at a power belongs to a layer from `layer power` on, and the operators before it have taken
everything that binds more tightly.
-/

namespace SysYTools

variable {fuel : Nat}

namespace Parser

open Grammar

variable {state : State}

/-- The loosest layer whose operators hold their left operand with a power. -/
def layer (power : Nat) : Nat := power / 2 + 1

/-- No operator of a layer, or of a tighter one, follows. -/
def State.Stops (state : State) (level : Nat) : Prop :=
  ∀ op, BinaryOp.ofKind? state.current.kind = some op → op.level < level

theorem level_pos (op : BinaryOp) : 0 < op.level := by
  cases op <;> decide

theorem level_le (op : BinaryOp) : op.level ≤ 6 := by
  cases op <;> decide

theorem leftPower_lt_iff (op : BinaryOp) (power : Nat) : op.leftPower < power ↔ op.level < layer power := by
  have positive := level_pos op
  simp only [BinaryOp.leftPower, layer]
  omega

theorem layer_rightPower (op : BinaryOp) : layer op.rightPower = op.level + 1 := by
  simp only [BinaryOp.rightPower, layer]
  omega

/-- What is read from the left operand of a layer on, up to an operator that binds less than a power. -/
def Extends (power : Nat) (left : Expr) (state : State) (taken : List Token) (expr : Expr) (after : State) : Prop :=
  (∀ before level, layer power ≤ level → level ≤ 7 → state.Stops (level + 1) →
    ExprAt level before left → ExprAt (layer power) (before ++ taken) expr) ∧ after.Stops (layer power)

/-- What holds of the parts of the expression parser with some fuel. -/
structure ExpressionsHold (fuel : Nat) : Prop where
  expression : ∀ power state, state.Closed → power ≤ 13 → 4 * state.rest.length + 3 ≤ fuel →
    (expression fuel power).Holds state 1 fun taken expr after =>
      ExprAt (layer power) taken expr ∧ after.Stops (layer power)
  operators : ∀ power left state, state.Closed → power ≤ 13 → 4 * state.rest.length + 1 ≤ fuel →
    (operators fuel power left).Holds state 0 (Extends power left state)
  operand : ∀ state, state.Closed → 4 * state.rest.length + 2 ≤ fuel →
    (operand fuel).Holds state 1 fun taken expr _ => ExprAt 7 taken expr
  expressionList : ∀ state, state.Closed → 4 * state.rest.length + 4 ≤ fuel →
    (expressionList fuel).Holds state 1 fun taken exprs _ => ExprList taken exprs
  indexList : ∀ start state, state.Closed → 4 * state.rest.length + 1 ≤ fuel →
    (indexList fuel start).Holds state 0 fun taken result _ => Indices start taken result.1 result.2

section Expressions

variable {fuel : Nat} (smaller : ExpressionsHold fuel)
include smaller

private theorem expression_succ_holds (power : Nat) (state : State) (closed : state.Closed)
    (bound : power ≤ 13) (adequate : 4 * state.rest.length + 3 ≤ fuel + 1) :
    (expression (fuel + 1) power).Holds state 1 fun taken expr after =>
      ExprAt (layer power) taken expr ∧ after.Stops (layer power) := by
  simp only [expression]
  refine .bind closed (smaller.operand state closed (by omega)) ?_
  intro taken left after closedNext shorter
  refine (smaller.operators power left after closedNext bound (by omega)).mono (Nat.zero_le _) ?_
  rintro more expr final ⟨derives, stops⟩ derived
  refine ⟨derives taken 7 ?_ le_rfl ?_ derived, stops⟩
  · simp only [layer]
    omega
  · exact fun op _ => (level_le op).trans_lt (by decide)

private theorem operators_succ_holds (power : Nat) (left : Expr) (state : State)
    (closed : state.Closed) (bound : power ≤ 13) (adequate : 4 * state.rest.length + 1 ≤ fuel + 1) :
    (operators (fuel + 1) power left).Holds state 0 (Extends power left state) := by
  simp only [operators, current_bind_holds]
  split
  next none =>
    refine .pure ⟨fun before level above bounded _ derived => ?_, fun op found => ?_⟩
    · rw [List.append_nil]
      exact derived.loosen above bounded
    · rw [none] at found
      cases found
  next op found =>
    split
    next weak =>
      refine .pure ⟨fun before level above bounded _ derived => ?_, fun other same => ?_⟩
      · rw [List.append_nil]
        exact derived.loosen above bounded
      · rw [found] at same
        cases same
        exact (leftPower_lt_iff op power).mp weak
    next strong =>
      have plain : state.current.kind ≠ .endOfInput := by
        intro stop
        simp [stop, BinaryOp.ofKind?] at found
      refine .bind closed (.take closed plain) ?_
      intro marks mark afterMark closedMark shorterMark
      have rightBound : op.rightPower ≤ 13 := by
        have := level_le op
        simp only [BinaryOp.rightPower]
        omega
      refine .bind closedMark (smaller.expression op.rightPower afterMark closedMark rightBound (by omega)) ?_
      intro taken right after closedNext shorter
      refine (smaller.operators power _ after closedNext bound (by omega)).mono (Nat.zero_le _) ?_
      rintro more expr final ⟨derives, stops⟩ ⟨derivedRight, stopsRight⟩ ⟨single, same⟩
      refine ⟨fun before level above bounded stopsLeft derived => ?_, stops⟩
      subst single same
      have levelBound := stopsLeft op found
      have joined : ExprAt op.level (before ++ state.current :: taken)
          (.binary left op right (left.span.through right.span)) :=
        .binary (derived.loosen (by omega) bounded) found (layer_rightPower op ▸ derivedRight)
      have whole := derives _ op.level
        (not_lt.mp ((leftPower_lt_iff op power).not.mp strong)) ((level_le op).trans (by decide))
        (layer_rightPower op ▸ stopsRight) joined
      simpa using whole

private theorem operand_succ_holds (state : State) (closed : state.Closed)
    (adequate : 4 * state.rest.length + 2 ≤ fuel + 1) :
    (operand (fuel + 1)).Holds state 1 fun taken expr _ => ExprAt 7 taken expr := by
  simp only [operand, current_bind_holds]
  split
  next op found =>
    have plain : state.current.kind ≠ .endOfInput := by
      intro stop
      simp [stop, UnaryOp.ofKind?] at found
    refine .bind closed (.take closed plain) ?_
    intro marks mark afterMark closedMark shorter
    refine .finish (smaller.expression UnaryOp.power afterMark closedMark le_rfl (by omega)) ?_ (by omega)
    rintro taken value after ⟨derived, -⟩ ⟨rfl, rfl⟩
    simpa using ExprAt.unary found derived
  · split
    next found =>
      refine .finish (.take closed (by simp [found])) ?_ (by omega)
      rintro taken token after ⟨rfl, rfl⟩
      exact .intLit found
    next found =>
      refine .finish (.take closed (by simp [found])) ?_ (by omega)
      rintro taken token after ⟨rfl, rfl⟩
      exact .floatLit found
    next found =>
      refine .bind closed (.take closed (by simp [found])) ?_
      intro openings opening afterOpening closedOpening shorter
      refine .bind closedOpening (smaller.expression 0 afterOpening closedOpening (by omega) (by omega)) ?_
      intro taken value afterValue closedValue _
      refine .closing closedValue (by decide) ?_
      rintro _ closing closes ⟨derived, -⟩ ⟨rfl, rfl⟩
      simpa using ExprAt.paren found derived closes
    next found =>
      refine .bind closed (.take closed (by simp [found])) ?_
      intro names name afterName closedName shorterName
      simp only [sees_bind_holds]
      split
      next opens =>
        rw [beq_iff_eq] at opens
        refine .bind closedName (.take closedName (by simp [opens])) ?_
        intro openings opening afterOpening closedOpening shorterOpening
        simp only [sees_bind_holds]
        split
        · rw [pure_bind_holds]
          refine .closing closedOpening (by decide) ?_
          rintro _ closing closes ⟨rfl, rfl⟩ ⟨rfl, rfl⟩
          simpa using ExprAt.callNone found opens closes
        · refine .bind closedOpening (smaller.expressionList afterOpening closedOpening (by omega)) ?_
          intro taken arguments afterArguments closedArguments _
          refine .closing closedArguments (by decide) ?_
          rintro _ closing closes derived ⟨rfl, rfl⟩ ⟨rfl, rfl⟩
          simpa using ExprAt.call found opens derived closes
      · refine .finish (smaller.indexList _ afterName closedName (by omega)) ?_ (by omega)
        rintro taken result after derived ⟨rfl, rfl⟩
        simpa using ExprAt.lval found derived
    · exact .fail

private theorem expressionList_succ_holds (state : State) (closed : state.Closed)
    (adequate : 4 * state.rest.length + 4 ≤ fuel + 1) :
    (expressionList (fuel + 1)).Holds state 1 fun taken exprs _ => ExprList taken exprs := by
  simp only [expressionList]
  refine .separated closed ?_ ?_ .single .more
  · exact (smaller.expression 0 state closed (by omega) (by omega)).mono le_rfl
      fun _ _ _ derived => derived.1
  · exact fun after closedAfter shorter => smaller.expressionList after closedAfter (by omega)

private theorem indexList_succ_holds (start : Span) (state : State) (closed : state.Closed)
    (adequate : 4 * state.rest.length + 1 ≤ fuel + 1) :
    (indexList (fuel + 1) start).Holds state 0 fun taken result _ => Indices start taken result.1 result.2 := by
  simp only [indexList, sees_bind_holds]
  split
  next opens =>
    rw [beq_iff_eq] at opens
    refine .bind closed (.take closed (by simp [opens])) ?_
    intro openings opening afterOpening closedOpening shorterOpening
    refine .bind closedOpening (smaller.expression 0 afterOpening closedOpening (by omega) (by omega)) ?_
    intro taken index afterIndex closedIndex shorterIndex
    refine .bind closedIndex (close_holds closedIndex (by decide) _) ?_
    intro closings stop afterClosing closedClosing shorterClosing
    refine .finish (smaller.indexList stop afterClosing closedClosing (by omega)) ?_ (by omega)
    rintro more result after derivedMore ⟨_, rfl, closes, rfl⟩ ⟨derived, -⟩ ⟨rfl, rfl⟩
    simpa using Indices.cons opens derived closes derivedMore
  · exact .pure .nil

end Expressions

theorem expressionsHold (fuel : Nat) : ExpressionsHold fuel := by
  induction fuel with
  | zero => constructor <;> intros <;> omega
  | succ _ smaller =>
    exact {
      expression := expression_succ_holds smaller
      operators := operators_succ_holds smaller
      operand := operand_succ_holds smaller
      expressionList := expressionList_succ_holds smaller
      indexList := indexList_succ_holds smaller }

theorem expression_holds (closed : state.Closed) (adequate : 4 * state.rest.length + 3 ≤ fuel) :
    (expression fuel 0).Holds state 1 fun taken expr _ => ExprAt 1 taken expr :=
  ((expressionsHold fuel).expression 0 state closed (by omega) adequate).mono le_rfl fun _ _ _ derived => derived.1

theorem indexList_holds (start : Span) (closed : state.Closed) (adequate : 4 * state.rest.length + 1 ≤ fuel) :
    (indexList fuel start).Holds state 0 fun taken result _ => Indices start taken result.1 result.2 :=
  (expressionsHold fuel).indexList start state closed adequate

/-! ## Declarations -/

theorem initVal_initValList_hold (fuel : Nat) :
    (∀ state : State, state.Closed → 4 * state.rest.length + 4 ≤ fuel →
      (initVal fuel).Holds state 1 fun taken init _ => Initializer taken init) ∧
    (∀ state : State, state.Closed → 4 * state.rest.length + 5 ≤ fuel →
      (initValList fuel).Holds state 1 fun taken inits _ => InitializerList taken inits) := by
  induction fuel with
  | zero => constructor <;> intros <;> omega
  | succ _ ih =>
    obtain ⟨initHolds, listHolds⟩ := ih
    refine ⟨fun state closed adequate => ?_, fun state closed adequate => ?_⟩
    · simp only [initVal, sees_bind_holds]
      split
      next opens =>
        rw [beq_iff_eq] at opens
        refine .bind closed (.take closed (by simp [opens])) ?_
        intro openings opening afterOpening closedOpening shorter
        simp only [sees_bind_holds]
        split
        · rw [pure_bind_holds]
          refine .closing closedOpening (by decide) ?_
          rintro _ closing closes ⟨rfl, rfl⟩
          simpa using Initializer.empty opens closes
        · refine .bind closedOpening (listHolds afterOpening closedOpening (by omega)) ?_
          intro taken elements afterList closedList _
          refine .closing closedList (by decide) ?_
          rintro _ closing closes derived ⟨rfl, rfl⟩
          simpa using Initializer.list opens derived closes
      · refine .finish (expression_holds closed (by omega)) ?_ (by omega)
        rintro taken value after derived
        simpa using Initializer.expr derived
    · simp only [initValList]
      exact .separated closed (initHolds state closed (by omega))
        (fun after closedAfter shorter => listHolds after closedAfter (by omega)) .single .more

theorem varDef_holds (closed : state.Closed) (adequate : 4 * state.rest.length + 4 ≤ fuel) :
    (varDef fuel).Holds state 1 fun taken var _ => Definition taken var := by
  simp only [varDef]
  refine .bind closed (expect_holds closed (by decide) _) ?_
  intro names name afterName closedName shorterName
  refine .bind closedName (indexList_holds name.span closedName (by omega)) ?_
  intro taken result afterDims closedDims shorterDims
  simp only [sees_bind_holds]
  split
  next assigns =>
    rw [beq_iff_eq] at assigns
    refine .bind closedDims (.take closedDims (by simp [assigns])) ?_
    intro signs sign afterSign closedSign shorterSign
    refine .finish ((initVal_initValList_hold fuel).1 afterSign closedSign (by omega)) ?_ (by omega)
    rintro more init after derivedInit ⟨rfl, rfl⟩ derived ⟨rfl, named⟩
    simpa using Definition.initialized named derived assigns derivedInit
  · refine .pure ?_
    rintro derived ⟨rfl, named⟩
    simpa using Definition.plain named derived

theorem varDefList_holds (fuel : Nat) (state : State) (closed : state.Closed)
    (adequate : 4 * state.rest.length + 5 ≤ fuel) :
    (varDefList fuel).Holds state 1 fun taken defs _ => Separated Definition taken defs := by
  induction fuel generalizing state with
  | zero => omega
  | succ _ ih =>
    simp only [varDefList]
    exact .separated closed (varDef_holds closed (by omega))
      (fun after closedAfter shorter => ih after closedAfter (by omega))
      .single .more

theorem decl_holds (closed : state.Closed) (adequate : 4 * state.rest.length + 5 ≤ fuel) :
    (decl fuel).Holds state 1 fun taken decl _ => Declaring taken decl := by
  simp only [decl, current_bind_holds, sees_bind_holds]
  split
  next const =>
    rw [beq_iff_eq] at const
    refine .bind closed (.take closed (by simp [const])) ?_
    intro marks mark afterMark closedMark shorterMark
    refine .bind closedMark (baseType_holds closedMark) ?_
    intro types type afterType closedType shorterType
    refine .bind closedType (varDefList_holds fuel afterType closedType (by omega)) ?_
    intro taken defs afterDefs closedDefs _
    refine .closing closedDefs (by decide) ?_
    rintro _ closing closes derived ⟨rfl, -, typed⟩ ⟨rfl, rfl⟩
    simpa [const] using Declaring.const const typed derived closes
  next plain =>
    refine .bind closed (baseType_holds closed) ?_
    intro types type afterType closedType shorterType
    refine .bind closedType (varDefList_holds fuel afterType closedType (by omega)) ?_
    intro taken defs afterDefs closedDefs _
    refine .closing closedDefs (by decide) ?_
    rintro _ closing closes derived ⟨rfl, here, typed⟩
    rw [Bool.eq_false_iff.mpr plain, ← here]
    simpa using Declaring.plain typed derived closes

/-! ## Statements -/

theorem simpleStmt_holds (closed : state.Closed) (adequate : 4 * state.rest.length + 3 ≤ fuel) :
    (simpleStmt fuel).Holds state 1 fun taken stmt _ =>
      Statement taken stmt ∧ stmt.NearestElse ∧ stmt.endsOpen = false := by
  simp only [simpleStmt]
  refine .bind closed (expression_holds closed adequate) ?_
  intro taken left afterLeft closedLeft shorterLeft
  simp only [sees_bind_holds]
  split
  next assigns =>
    rw [beq_iff_eq] at assigns
    refine .bind closedLeft (.take closedLeft (by simp [assigns])) ?_
    intro signs sign afterSign closedSign shorterSign
    split
    next reference indices span =>
      refine .bind closedSign (expression_holds closedSign (by omega)) ?_
      intro more value afterValue closedValue _
      refine .closing closedValue (by decide) ?_
      rintro _ closing closes derivedValue ⟨rfl, rfl⟩ derived
      refine ⟨?_, trivial, rfl⟩
      simpa using Statement.assign derived.target assigns derivedValue closes
    · exact .fail
  · refine .closing closedLeft (by decide) ?_
    rintro _ closing closes derived
    exact ⟨by simpa using Statement.expr derived closes, trivial, rfl⟩

/-- The tokens of a block, of which the items and the place are read. -/
def Braced (taken : List Token) (result : List BlockItem × Span) : Prop :=
  ∃ opening body closing, taken = opening :: body ++ [closing] ∧ opening.kind = .leftBrace ∧
    closing.kind = .rightBrace ∧ result.2 = opening.span.through closing.span ∧ Items body result.1 ∧
    BlockItem.AllNearestElse result.1

/-- The tokens of an item before those of further items. -/
def Leads (taken : List Token) (item : BlockItem) : Prop :=
  (∀ more rest, Items more rest → Items (taken ++ more) (item :: rest)) ∧ item.NearestElse

/-- What holds of the parts of the statement parser with some fuel. A statement that could take an
`else` is not followed by one. -/
structure StatementsHold (fuel : Nat) : Prop where
  stmt : ∀ state, state.Closed → 4 * state.rest.length + 5 ≤ fuel →
    (stmt fuel).Holds state 1 fun taken stmt after =>
      Statement taken stmt ∧ stmt.NearestElse ∧ (stmt.endsOpen = true → after.current.kind ≠ .elseKeyword)
  block : ∀ state, state.Closed → 4 * state.rest.length + 4 ≤ fuel →
    (block fuel).Holds state 1 fun taken result _ => Braced taken result
  blockItems : ∀ state, state.Closed → 4 * state.rest.length + 7 ≤ fuel →
    (blockItems fuel).Holds state 0 fun taken items _ => Items taken items ∧ BlockItem.AllNearestElse items
  blockItem : ∀ state, state.Closed → 4 * state.rest.length + 6 ≤ fuel →
    (blockItem fuel).Holds state 1 fun taken item _ => Leads taken item

/-- The tokens of a keyword and a condition in parentheses. -/
private def Heads (keyword : Token) (head : List Token) (condition : Expr) : Prop :=
  ∃ opening tokens closing, head = keyword :: opening :: tokens ++ [closing] ∧
    opening.kind = .leftParen ∧ ExprAt 1 tokens condition ∧ closing.kind = .rightParen

private theorem head_holds {α : Type} (closed : state.Closed)
    (plain : state.current.kind ≠ .endOfInput) (adequate : 4 * state.rest.length ≤ fuel)
    {keyword : String} {next : Expr → Step α} {least : Nat} {post : List Token → α → State → Prop}
    (holds : ∀ head condition after, after.Closed → after.rest.length + 2 ≤ state.rest.length →
      (next condition).Holds after (least - 2) fun more result final =>
        Heads state.current head condition → post (head ++ more) result final) :
    (take >>= fun _ => openParen keyword >>= fun _ => expression fuel 0 >>= fun condition =>
      closeParen >>= fun _ => next condition).Holds state least post := by
  refine .bind closed (.take closed plain) ?_
  intro keywords mark afterKeyword closedKeyword shorterKeyword
  refine .bind closedKeyword (openParen_holds closedKeyword keyword) ?_
  intro openings _ afterOpening closedOpening shorterOpening
  refine .bind closedOpening (expression_holds closedOpening (by omega)) ?_
  intro taken condition afterCondition closedCondition shorterCondition
  refine .bind closedCondition (close_holds closedCondition (by decide) _) ?_
  intro closings _ after closedClosing shorterClosing
  refine (holds (keywords ++ (openings ++ (taken ++ closings))) condition after
    closedClosing (by omega)).mono (by omega) ?_
  rintro more result final follows ⟨closing, rfl, closes, -⟩ derived ⟨opening, rfl, opens⟩ ⟨rfl, rfl⟩
  simpa using follows ⟨opening, taken, closing, by simp, opens, derived, closes⟩

private theorem jump_holds {make : Span → Stmt} (closed : state.Closed) (plain : state.current.kind ≠ .endOfInput) :
    (do let _ ← take
        return make (state.current.span.through (← semicolon)) : Step Stmt).Holds state 1 fun taken stmt _ =>
      ∃ stop : Token, taken = [state.current, stop] ∧ stop.kind = .semicolon ∧
        stmt = make (state.current.span.through stop.span) := by
  refine .bind closed (.take closed plain) ?_
  intro keywords keyword afterKeyword closedKeyword _
  refine .closing closedKeyword (by decide) ?_
  rintro _ closing closes ⟨rfl, rfl⟩
  exact ⟨closing, rfl, closes, rfl⟩

section Statements

variable {fuel : Nat} (smaller : StatementsHold fuel)
include smaller

section

variable (state : State) (closed : state.Closed)
include closed

private theorem stmt_succ_holds
    (adequate : 4 * state.rest.length + 5 ≤ fuel + 1) :
    (stmt (fuel + 1)).Holds state 1 fun taken stmt after => Statement taken stmt ∧ stmt.NearestElse ∧
        (stmt.endsOpen = true → after.current.kind ≠ .elseKeyword) := by
  simp only [stmt, current_bind_holds]
  split
  · refine .finish (smaller.block state closed (by omega)) ?_ (by omega)
    rintro taken result after ⟨opening, body, closing, rfl, opens, closes, spans, derived, nearest⟩
    rw [spans]
    refine ⟨?_, nearest, fun isOpen => Bool.noConfusion isOpen⟩
    simpa using Statement.block opens derived closes
  next found =>
    refine head_holds closed (by simp [found]) (by omega) ?_
    intro head condition afterHead closedHead shorterHead
    refine .bind closedHead (smaller.stmt afterHead closedHead (by omega)) ?_
    intro body thenPart afterThen closedThen shorterThen
    simp only [sees_bind_holds]
    split
    next otherwise =>
      rw [beq_iff_eq] at otherwise
      refine .bind closedThen (.take closedThen (by simp [otherwise])) ?_
      intro marks mark afterMark closedMark shorterMark
      refine .finish (smaller.stmt afterMark closedMark (by omega)) ?_ (by omega)
      rintro other elsePart after ⟨derivedElse, nearestElse, openElse⟩ ⟨rfl, rfl⟩ ⟨derivedThen, nearestThen, openThen⟩
        ⟨opening, tokens, closing, rfl, opens, derived, closes⟩
      have full : thenPart.endsOpen = false := Bool.eq_false_iff.mpr fun isOpen => openThen isOpen otherwise
      refine ⟨?_, ⟨full, nearestThen, nearestElse⟩, openElse⟩
      simpa using Statement.branchElse found opens derived closes derivedThen otherwise derivedElse
    next otherwise =>
      refine .pure ?_
      rintro ⟨derivedThen, nearestThen, -⟩ ⟨opening, tokens, closing, rfl, opens, derived, closes⟩
      refine ⟨?_, nearestThen, fun _ => by simpa using otherwise⟩
      simpa using Statement.branch found opens derived closes derivedThen
  next found =>
    refine head_holds closed (by simp [found]) (by omega) ?_
    intro head condition afterHead closedHead shorterHead
    refine .finish (smaller.stmt afterHead closedHead (by omega)) ?_ (by omega)
    rintro body stmt after ⟨derivedBody, nearest, isOpen⟩ ⟨_, _, closing, rfl, opens, derived, closes⟩
    refine ⟨?_, nearest, isOpen⟩
    simpa using Statement.loop found opens derived closes derivedBody
  next found =>
    refine (jump_holds closed (by simp [found])).mono le_rfl ?_
    rintro taken stmt after ⟨stop, rfl, closes, rfl⟩
    exact ⟨.breakLoop found closes, trivial, fun isOpen => Bool.noConfusion isOpen⟩
  next found =>
    refine (jump_holds closed (by simp [found])).mono le_rfl ?_
    rintro taken stmt after ⟨stop, rfl, closes, rfl⟩
    exact ⟨.continueLoop found closes, trivial, fun isOpen => Bool.noConfusion isOpen⟩
  next found =>
    refine .bind closed (.take closed (by simp [found])) ?_
    intro keywords keyword afterKeyword closedKeyword shorterKeyword
    simp only [sees_bind_holds]
    split
    · rw [pure_bind_holds]
      refine .closing closedKeyword (by decide) ?_
      rintro _ closing closes ⟨rfl, rfl⟩
      exact ⟨.giveNothing found closes, trivial, fun isOpen => Bool.noConfusion isOpen⟩
    · refine .bind closedKeyword (.map (expression_holds closedKeyword (by omega))) ?_
      intro taken value afterValue closedValue _
      refine .closing closedValue (by decide) ?_
      rintro _ closing closes ⟨_, rfl, derived⟩ ⟨rfl, rfl⟩
      refine ⟨?_, trivial, fun isOpen => Bool.noConfusion isOpen⟩
      simpa using Statement.giveBack found derived closes
  next found =>
    refine .finish (.take closed (by simp [found])) ?_ (by omega)
    rintro stops stop after ⟨rfl, rfl⟩
    exact ⟨.empty found, trivial, fun isOpen => Bool.noConfusion isOpen⟩
  · refine (simpleStmt_holds closed (by omega)).mono le_rfl ?_
    rintro taken stmt after ⟨derived, nearest, full⟩
    exact ⟨derived, nearest, fun isOpen => absurd (full.symm.trans isOpen) Bool.false_ne_true⟩

private theorem block_succ_holds
    (adequate : 4 * state.rest.length + 4 ≤ fuel + 1) :
    (block (fuel + 1)).Holds state 1 fun taken result _ => Braced taken result := by
  simp only [block]
  refine .bind closed (expect_holds closed (by decide) _) ?_
  intro openings opening afterOpening closedOpening shorter
  refine .bind closedOpening (smaller.blockItems afterOpening closedOpening (by omega)) ?_
  intro body items afterItems closedItems _
  refine .closing closedItems (by decide) ?_
  rintro _ closing closes ⟨derived, nearest⟩ ⟨rfl, opens⟩
  exact ⟨opening, body, closing, by simp, opens, closes, rfl, derived, nearest⟩

private theorem blockItems_succ_holds
    (adequate : 4 * state.rest.length + 7 ≤ fuel + 1) :
    (blockItems (fuel + 1)).Holds state 0 fun taken items _ => Items taken items ∧ BlockItem.AllNearestElse items := by
  simp only [blockItems, current_bind_holds]
  split
  · exact .pure ⟨.nil, trivial⟩
  next inside =>
    rw [not_or] at inside
    refine .recover closed inside.2 (fun _ => inside.1) (smaller.blockItem state closed (by omega)) rfl ?_ ?_
    · intro taken item after closedNext shorter
      refine .finish (smaller.blockItems after closedNext (by omega)) ?_ (by omega)
      rintro more items final ⟨derivedMore, nearestMore⟩ ⟨derived, nearest⟩
      refine ⟨?_, nearest, nearestMore⟩
      simpa using derived _ _ derivedMore
    · exact fun after closedNext shorter =>
        (smaller.blockItems after closedNext (by omega)).mono le_rfl fun _ _ _ _ => trivial

private theorem blockItem_succ_holds
    (adequate : 4 * state.rest.length + 6 ≤ fuel + 1) :
    (blockItem (fuel + 1)).Holds state 1 fun taken item _ => Leads taken item := by
  have declHolds : (decl fuel >>= fun decl => pure (.decl decl)).Holds state 1 fun taken item _ => Leads taken item := by
    refine .bind closed (decl_holds closed (by omega)) ?_
    intro taken decl after _ _
    refine .pure fun derived => ⟨fun more rest further => ?_, trivial⟩
    simpa using Items.decl derived further
  simp only [blockItem, current_bind_holds]
  split
  · exact declHolds
  · exact declHolds
  · exact declHolds
  · refine .finish (smaller.stmt state closed (by omega)) ?_ (by omega)
    rintro taken stmt after ⟨derived, nearest, -⟩
    refine ⟨fun more rest further => ?_, nearest⟩
    simpa using Items.stmt derived further

end

end Statements

theorem statementsHold (fuel : Nat) : StatementsHold fuel := by
  induction fuel with
  | zero => constructor <;> intros <;> omega
  | succ _ smaller =>
    exact {
      stmt := stmt_succ_holds smaller
      block := block_succ_holds smaller
      blockItems := blockItems_succ_holds smaller
      blockItem := blockItem_succ_holds smaller }

/-! ## Functions and programs -/

theorem param_holds (closed : state.Closed) (adequate : 4 * state.rest.length + 1 ≤ fuel) :
    (param fuel).Holds state 1 fun taken param _ => Parameter taken param := by
  simp only [param]
  refine .bind closed (baseType_holds closed) ?_
  intro types type afterType closedType shorterType
  refine .bind closedType (expect_holds closedType (by decide) _) ?_
  intro names name afterName closedName shorterName
  simp only [sees_bind_holds]
  split
  next opens =>
    rw [beq_iff_eq] at opens
    refine .bind closedName (.take closedName (by simp [opens])) ?_
    intro openings opening afterOpening closedOpening shorterOpening
    refine .bind closedOpening (close_holds closedOpening (by decide) _) ?_
    intro closings stop afterClosing closedClosing shorterClosing
    refine .finish (indexList_holds stop closedClosing (by omega)) ?_ (by omega)
    rintro taken result after derived ⟨_, rfl, closes, rfl⟩ ⟨rfl, rfl⟩ ⟨rfl, named⟩ ⟨rfl, -, typed⟩
    simpa using Parameter.array typed named opens closes derived
  · refine .pure ?_
    rintro ⟨rfl, named⟩ ⟨rfl, -, typed⟩
    exact .plain typed named

theorem paramList_holds (fuel : Nat) (state : State) (closed : state.Closed)
    (adequate : 4 * state.rest.length + 2 ≤ fuel) :
    (paramList fuel).Holds state 1 fun taken params _ => Separated Parameter taken params := by
  induction fuel generalizing state with
  | zero => omega
  | succ _ ih =>
    simp only [paramList]
    exact .separated closed (param_holds closed (by omega))
      (fun after closedAfter shorter => ih after closedAfter (by omega))
      .single .more

theorem funcDef_holds {returnType : ReturnType} (closed : state.Closed)
    (typed : ReturnType.ofKind? state.current.kind = some returnType) (adequate : 4 * state.rest.length + 4 ≤ fuel) :
    (funcDef fuel returnType).Holds state 1 fun taken func _ =>
      Function taken func ∧ BlockItem.AllNearestElse func.body := by
  have plain : state.current.kind ≠ .endOfInput := by
    intro stop
    simp [stop, ReturnType.ofKind?, BaseType.ofKind?] at typed
  simp only [funcDef]
  refine .bind closed (.take closed plain) ?_
  intro types type afterType closedType shorterType
  refine .bind closedType (expect_holds closedType (by decide) _) ?_
  intro names name afterName closedName shorterName
  refine .bind closedName (expect_holds closedName (by decide) _) ?_
  intro openings opening afterOpening closedOpening shorterOpening
  -- Both ways of writing the parameters end at the same closing parenthesis.
  have bodyHolds : ∀ (tokens : List Token) (params : List Param) (after : State),
      after.Closed → after.rest.length ≤ afterOpening.rest.length →
      (closeParen >>= fun _ => block fuel >>= fun body => pure
        ({ returnType, name := name.value, params, body := body.1, bodySpan := body.2
           span := type.span.through body.2, nameSpan := name.span
           typeSpan := type.span } : FuncDef)).Holds after 0 fun more func _ =>
        Parameters tokens params → opening.kind = .leftParen → name.kind = .identifier →
          type = state.current →
          Function (type :: name :: opening :: (tokens ++ more)) func ∧
            BlockItem.AllNearestElse func.body := by
    intro tokens params after closedAfter shorterAfter
    refine .bind closedAfter (close_holds closedAfter (by decide) _) ?_
    intro closings _ afterClosing closedClosing shorterClosing
    refine .bind closedClosing ((statementsHold fuel).block afterClosing closedClosing (by omega)) ?_
    intro body result final _ _
    refine (Step.Holds.pure ?_).mono (Nat.zero_le _) fun _ _ _ done => done
    rintro ⟨_, _, _, rfl, bodyOpens, bodyCloses, spans, derivedBody, nearest⟩
      ⟨closing, rfl, closes, -⟩ derived opens named rfl
    refine ⟨?_, nearest⟩
    rw [spans]
    simpa using Function.mk typed named opens derived closes bodyOpens derivedBody bodyCloses
  simp only [sees_bind_holds]
  split
  · rw [pure_bind_holds]
    refine (bodyHolds [] [] afterOpening closedOpening le_rfl).mono le_rfl ?_
    rintro more func final done ⟨rfl, opens⟩ ⟨rfl, named⟩ ⟨rfl, same⟩
    simpa using done .none opens named same
  · refine .bind closedOpening (paramList_holds fuel afterOpening closedOpening (by omega)) ?_
    intro taken params afterParams closedParams shorterParams
    refine (bodyHolds taken params afterParams closedParams (by omega)).mono le_rfl ?_
    rintro more func final done derived ⟨rfl, opens⟩ ⟨rfl, named⟩ ⟨rfl, same⟩
    simpa using done (.some derived) opens named same

theorem item_holds (closed : state.Closed) (adequate : 4 * state.rest.length + 5 ≤ fuel) :
    (item fuel).Holds state 1 fun taken item _ =>
      (∀ more rest, TopLevel more rest → TopLevel (taken ++ more) (item :: rest)) ∧ item.NearestElse := by
  have declHolds : (decl fuel >>= fun decl => pure (.decl decl)).Holds state 1 fun taken item _ =>
      (∀ more rest, TopLevel more rest → TopLevel (taken ++ more) (item :: rest)) ∧
        item.NearestElse := by
    refine .bind closed (decl_holds closed adequate) ?_
    intro taken decl after _ _
    refine .pure fun derived => ⟨fun more rest further => ?_, trivial⟩
    simpa using TopLevel.decl derived further
  simp only [item, current_bind_holds]
  split
  · exact declHolds
  · split
    · exact .fail
    next type typed =>
      simp only [kindAhead_bind_holds]
      split
      · refine .finish (funcDef_holds closed typed (by omega)) ?_ (by omega)
        rintro taken func after ⟨derived, nearest⟩
        refine ⟨fun more rest further => ?_, nearest⟩
        simpa using TopLevel.func derived further
      · split
        · exact .fail
        · exact declHolds

theorem items_holds (fuel : Nat) (state : State) (closed : state.Closed)
    (adequate : 4 * state.rest.length + 6 ≤ fuel) :
    (items fuel).Holds state 0 fun taken items after => TopLevel taken items ∧ (∀ item ∈ items, item.NearestElse) ∧
        after.current.kind = .endOfInput := by
  induction fuel generalizing state with
  | zero => omega
  | succ _ ih =>
    simp only [items, sees_bind_holds]
    split
    next stops => exact .pure ⟨.nil, by simp, beq_iff_eq.mp stops⟩
    next inside =>
      have plain : state.current.kind ≠ .endOfInput := by simpa using inside
      refine .recover closed plain (fun outside => Bool.noConfusion outside) (item_holds closed (by omega)) rfl ?_ ?_
      · intro taken first after closedNext shorter
        refine .finish (ih after closedNext (by omega)) ?_ (by omega)
        rintro more rest final ⟨derivedRest, nearestRest, stops⟩ ⟨derived, nearest⟩
        refine ⟨?_, ?_, stops⟩
        · simpa using derived _ _ derivedRest
        · simpa using ⟨nearest, nearestRest⟩
      · exact fun after closedNext shorter => (ih after closedNext (by omega)).mono le_rfl fun _ _ _ _ => trivial

end Parser

end SysYTools
