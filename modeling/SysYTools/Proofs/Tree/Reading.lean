import SysYTools.Proofs.Tree.Derivation

/-!
Expressions that the grammar derives are read by the parser, without a report and as the tree of the
derivation. The parser decides by the token that follows whether an expression goes on, so each statement
says which token may follow.

A derivation of a layer groups to the left, while the parser reads a left operand first and then the
operators after it. So an expression is shown to be read up to the loop over operators, and this loop is
left with whatever follows.
-/

namespace SysYTools.Parser

open List Grammar

variable {closing first mark name next opening token : Token} {expr : Expr} {exprs indices : List Expr}
  {fuel level power : Nat} {rest tokens : List Token} {start stop : Span}

variable {α β : Type}

/-! ## Steps that take given tokens -/

/-- The state after as many tokens as a list has. -/
def State.past (state : State) : List Token → State
  | [] => state
  | _ :: more => state.advance.past more

@[simp] theorem State.past_nil (state : State) : state.past [] = state := rfl

theorem State.past_append (state : State) (taken more : List Token) :
    state.past (taken ++ more) = (state.past taken).past more := by
  induction taken generalizing state with
  | nil => rfl
  | cons _ _ ih => exact ih state.advance

theorem State.tokens_advance {state : State} {more : List Token} (shown : state.tokens = first :: more)
    (left : more ≠ []) : state.advance.tokens = more := by
  obtain ⟨next, rest, rfl⟩ := exists_cons_of_ne_nil left
  have same : state.rest = next :: rest := (List.cons.inj shown).2
  simp [State.advance, State.tokens, same]

theorem State.tokens_past {state : State} {taken more : List Token}
    (shown : state.tokens = taken ++ more) (left : more ≠ []) : (state.past taken).tokens = more := by
  induction taken generalizing state with
  | nil => exact shown
  | cons _ _ ih => exact ih (State.tokens_advance shown (by simp [left]))

@[simp] theorem State.reports_advance (state : State) : state.advance.reports = state.reports := by
  unfold State.advance
  split <;> rfl

theorem State.reports_past (state : State) (taken : List Token) : (state.past taken).reports = state.reports := by
  induction taken generalizing state with
  | nil => rfl
  | cons _ _ ih => exact (ih state.advance).trans state.reports_advance

theorem State.current_of_tokens {state : State} (shown : state.tokens = first :: rest) : state.current = first :=
  (List.cons.inj shown).1

theorem State.kindAhead_of_tokens {state : State} {distance : Nat} {ahead : Token}
    (shown : state.tokens[distance]? = some ahead) : state.kindAhead distance = ahead.kind := by
  rw [State.tokens] at shown
  rw [State.kindAhead, headD_eq_head?_getD, head?_drop, shown, Option.getD_some]

/-- A step takes given tokens from those before it, without a report, and gives a value. There are others after
them. -/
def Step.Reads (step : Step α) (taken after : List Token) (value : α) : Prop :=
  ∀ state : State, state.tokens = taken ++ after → after ≠ [] → step state = .accept value (state.past taken)

section Looking

variable {after taken : List Token} {kind : TokenKind} {result : α}

theorem Step.reads_congr {step other : Step α} {ahead : List Token} (split : taken ++ after = first :: ahead)
    (same : ∀ state, state.tokens = first :: ahead → step state = other state) :
    step.Reads taken after result ↔ other.Reads taken after result :=
  forall_congr' fun state => imp_congr_right fun shown => by rw [same state (shown.trans split)]

theorem current_bind_apply {state : State} {next : Token → Step α} :
    (current >>= next) state = next state.current state := rfl

@[simp] theorem current_bind_reads {next : Token → Step α} :
    (current >>= next).Reads (first :: taken) after result ↔ (next first).Reads (first :: taken) after result :=
  Step.reads_congr rfl fun state shown => by rw [current_bind_apply, State.current_of_tokens shown]

@[simp] theorem current_bind_reads_nil {next : Token → Step α} :
    (current >>= next).Reads [] (first :: after) result ↔ (next first).Reads [] (first :: after) result :=
  Step.reads_congr rfl fun state shown => by rw [current_bind_apply, State.current_of_tokens shown]

section

variable {next : Bool → Step α}

theorem sees_bind_eq : sees kind >>= next = current >>= fun token => next (token.kind == kind) := rfl

@[simp] theorem sees_bind_reads :
    (sees kind >>= next).Reads (first :: taken) after result ↔
      (next (first.kind == kind)).Reads (first :: taken) after result := by
  rw [sees_bind_eq, current_bind_reads]

@[simp] theorem sees_bind_reads_nil :
    (sees kind >>= next).Reads [] (first :: after) result ↔
      (next (first.kind == kind)).Reads [] (first :: after) result := by
  rw [sees_bind_eq, current_bind_reads_nil]

theorem sees_bind_reads_of_starts {kinds : List TokenKind} {more : List Token}
    (starts : ∃ first rest, taken = first :: rest ∧ first.kind ∈ kinds) (other : kind ∉ kinds) :
    (sees kind >>= next).Reads (taken ++ more) after result ↔ (next false).Reads (taken ++ more) after result := by
  obtain ⟨_, _, rfl, isStart⟩ := starts
  rw [cons_append, sees_bind_reads, beq_false_of_ne (ne_of_mem_of_not_mem isStart other)]

end

theorem kindAhead_bind_reads {distance : Nat} {ahead : Token} {next : TokenKind → Step α}
    (shown : (taken ++ after)[distance]? = some ahead) :
    (kindAhead distance >>= next).Reads taken after result ↔ (next ahead.kind).Reads taken after result := by
  refine forall_congr' fun state => imp_congr_right fun split => ?_
  rw [← State.kindAhead_of_tokens (split ▸ shown)]
  rfl

end Looking

namespace Step.Reads

variable {after back taken : List Token} {kind : TokenKind} {result : α} {value : β}

theorem pure {value : α} : (Pure.pure value : Step α).Reads [] after value := fun _ _ _ => rfl

section

variable {first : Step β} {second : β → Step α}

theorem bind_apply {state : State} (reads : first.Reads taken after value)
    (shown : state.tokens = taken ++ after) (left : after ≠ []) :
    (first >>= second) state = second value (state.past taken) := by
  change Step.andThen first second state = _
  rw [andThen, reads state shown left]

theorem bind (reads : first.Reads taken (back ++ after) value)
    (further : (second value).Reads back after result) : (first >>= second).Reads (taken ++ back) after result := by
  intro state shown left
  rw [append_assoc] at shown
  have follow := append_ne_nil_of_right_ne_nil back left
  rw [reads.bind_apply shown follow, State.past_append]
  exact further _ (State.tokens_past shown follow) left

theorem one (reads : first.Reads [token] (back ++ after) value)
    (further : (second value).Reads back after result) : (first >>= second).Reads (token :: back) after result :=
  bind reads further

theorem last (reads : first.Reads taken after value)
    (further : (second value).Reads [] after result) : (first >>= second).Reads taken after result := by
  rw [← append_nil taken]
  exact .bind reads further

end

theorem finish {step : Step β} {change : β → α} (reads : step.Reads taken after value) :
    (step >>= fun value => Pure.pure (change value)).Reads taken after (change value) :=
  .last reads .pure

theorem take : Parser.take.Reads [token] after token := by
  intro state shown _
  rw [← State.current_of_tokens shown]
  rfl

theorem expect (found : token.kind = kind) (expectation : Expectation) :
    (Parser.expect kind expectation).Reads [token] after token := by
  rw [Parser.expect, current_bind_reads, if_pos found]
  exact .take

theorem close (found : token.kind = kind) (problem : String → Problem) :
    (Parser.close kind problem).Reads [token] after token.span := by
  intro state shown _
  obtain rfl := State.current_of_tokens shown
  rw [Parser.close, if_pos found]
  rfl

theorem openParen (found : token.kind = .leftParen) (keyword : String) :
    (Parser.openParen keyword).Reads [token] after () := by
  rw [Parser.openParen, current_bind_reads, if_pos found]
  exact .finish .take

theorem baseType {type : BaseType} (found : BaseType.ofKind? token.kind = some type) :
    Parser.baseType.Reads [token] after (type, token) := by
  simp only [Parser.baseType, current_bind_reads, found]
  exact .finish .take

theorem attempt {step : Step α} (reads : step.Reads taken after result) :
    step.attempt.Reads taken after (some result) := by
  intro state shown left
  rw [Step.attempt, reads state shown left]

theorem single {part : Step β} {list : Step (List β)} (reads : part.Reads taken (next :: rest) value)
    (stops : next.kind ≠ .comma) : (part.separated list).Reads taken (next :: rest) [value] := by
  refine .last reads ?_
  rw [sees_bind_reads_nil, beq_false_of_ne stops]
  exact .pure

theorem more {part : Step β} {list : Step (List β)} {others : List Token} {comma : Token} {values : List β}
    (reads : part.Reads taken (comma :: (others ++ after)) value) (found : comma.kind = .comma)
    (further : list.Reads others after values) :
    (part.separated list).Reads (taken ++ comma :: others) after (value :: values) := by
  refine .bind reads ?_
  rw [sees_bind_reads, found]
  exact .one .take (.finish further)

end Step.Reads

/-! ## Expressions -/

/-- A token that ends every expression before it. -/
def EndsExpr (kind : TokenKind) : Prop := kind ≠ .leftParen ∧ kind ≠ .leftBracket ∧ BinaryOp.ofKind? kind = none

instance (kind : TokenKind) : Decidable (EndsExpr kind) := inferInstanceAs (Decidable (_ ∧ _ ∧ _))

/-- The kinds of token that an expression can start with. -/
def startsExpr : List TokenKind := [.plus, .minus, .bang, .integerLiteral, .floatLiteral, .leftParen, .identifier]

theorem ExprAt_starts (derived : ExprAt level tokens expr) :
    ∃ first rest, tokens = first :: rest ∧ first.kind ∈ startsExpr := by
  induction derived using ExprAt.rec (motive_2 := fun _ _ _ _ _ => True)
    (motive_3 := fun _ _ _ => True) with
  | tighter _ _ ih => exact ih
  | binary _ _ _ ih =>
    obtain ⟨first, _, rfl, starts⟩ := ih
    exact ⟨first, _, rfl, starts⟩
  | @unary mark _ _ op found _ _ =>
    refine ⟨_, _, rfl, ?_⟩
    cases kind : mark.kind <;> simp [kind, UnaryOp.ofKind?] at found <;> decide
  | intLit found | floatLit found | lval found | callNone found | call found | paren found =>
    exact ⟨_, _, rfl, by simp [found, startsExpr]⟩
  | _ => trivial

/-- An expression is read, and what may follow it is left to the loop over operators. -/
private def ReadsExpr (level : Nat) (tokens : List Token) (expr : Expr) : Prop :=
  ∀ ⦃next : Token⦄ ⦃rest : List Token⦄ ⦃fuel power : Nat⦄, next.kind ≠ .leftParen → next.kind ≠ .leftBracket →
    (∀ op, BinaryOp.ofKind? next.kind = some op → op.level ≤ level) → layer power ≤ level →
    4 * (tokens.length + rest.length) + 3 ≤ fuel → ∃ left, 4 * rest.length + 1 ≤ left ∧
      ∀ state : State, state.tokens = tokens ++ next :: rest →
        expression fuel power state = operators left power expr (state.past tokens)

private def ReadsOperand (tokens : List Token) (expr : Expr) : Prop :=
  ∀ ⦃next : Token⦄ ⦃rest : List Token⦄ ⦃fuel : Nat⦄, next.kind ≠ .leftParen → next.kind ≠ .leftBracket →
    4 * (tokens.length + rest.length) + 2 ≤ fuel → (operand fuel).Reads tokens (next :: rest) expr

private def ReadsIndices (start : Span) (tokens : List Token) (indices : List Expr) (stop : Span) : Prop :=
  ∀ ⦃next : Token⦄ ⦃rest : List Token⦄ ⦃fuel : Nat⦄, next.kind ≠ .leftBracket →
    4 * (tokens.length + rest.length) + 1 ≤ fuel → (indexList fuel start).Reads tokens (next :: rest) (indices, stop)

private def ReadsList (tokens : List Token) (exprs : List Expr) : Prop :=
  ∀ ⦃next : Token⦄ ⦃rest : List Token⦄ ⦃fuel : Nat⦄, next.kind = .rightParen →
    4 * (tokens.length + rest.length) + 4 ≤ fuel → (expressionList fuel).Reads tokens (next :: rest) exprs

private theorem ReadsExpr.reads (reads : ReadsExpr level tokens expr)
    (ends : next.kind ≠ .leftParen ∧ next.kind ≠ .leftBracket)
    (stops : ∀ op, BinaryOp.ofKind? next.kind = some op → op.level < layer power) (above : layer power ≤ level)
    (adequate : 4 * (tokens.length + rest.length) + 3 ≤ fuel) :
    (expression fuel power).Reads tokens (next :: rest) expr := by
  obtain ⟨left, _, same⟩ := reads ends.1 ends.2 (fun op found => (stops op found).le.trans above) above adequate
  obtain ⟨left, rfl⟩ := Nat.exists_eq_succ_of_ne_zero (n := left) (by omega)
  intro state shown following
  rw [same state shown, operators, current_bind_apply, State.current_of_tokens (State.tokens_past shown following)]
  cases found : BinaryOp.ofKind? next.kind with
  | none => rfl
  | some op =>
    simp only [if_pos ((leftPower_lt_iff op power).mpr (stops op found))]
    rfl

private theorem ReadsExpr.reads_of_ends (reads : ReadsExpr 1 tokens expr) (ends : EndsExpr next.kind)
    (adequate : 4 * (tokens.length + rest.length) + 3 ≤ fuel) : (expression fuel 0).Reads tokens (next :: rest) expr :=
  reads.reads ⟨ends.1, ends.2.1⟩ (fun _ found => nomatch found.symm.trans ends.2.2) le_rfl adequate

private theorem ReadsOperand.reads (reads : ReadsOperand tokens expr) : ReadsExpr 7 tokens expr := by
  intro next rest fuel power notCall notIndex _ _ adequate
  obtain _ | fuel := fuel
  · omega
  refine ⟨fuel, by omega, fun state shown => ?_⟩
  rw [expression]
  exact (reads notCall notIndex (by omega)).bind_apply shown (by simp)

private theorem reads_tighter (reads : ReadsExpr (level + 1) tokens expr) : ReadsExpr level tokens expr := by
  intro next rest fuel power notCall notIndex stops above adequate
  exact reads notCall notIndex (fun op found => (stops op found).trans (Nat.le_succ _)) (above.trans (Nat.le_succ _))
    adequate

private theorem reads_binary {left right : List Token} {leftExpr rightExpr : Expr} {op : BinaryOp}
    (readsLeft : ReadsExpr op.level left leftExpr) (found : BinaryOp.ofKind? mark.kind = some op)
    (readsRight : ReadsExpr (op.level + 1) right rightExpr) :
    ReadsExpr op.level (left ++ mark :: right)
      (.binary leftExpr op rightExpr (leftExpr.span.through rightExpr.span)) := by
  intro next rest fuel power notCall notIndex stops above adequate
  have notOpening : mark.kind ≠ .leftParen ∧ mark.kind ≠ .leftBracket := by
    constructor <;> intro kind <;> simp [kind, BinaryOp.ofKind?] at found
  -- The left operand leaves the operator to the loop, which takes it and reads the right operand.
  obtain ⟨fuelLeft, _, same⟩ := readsLeft notOpening.1 notOpening.2
    (fun other seen => by
      rw [found] at seen
      cases seen
      exact le_rfl) above (show 4 * (left.length + (right ++ next :: rest).length) + 3 ≤ fuel by grind)
  obtain ⟨fuelLeft, rfl⟩ := Nat.exists_eq_succ_of_ne_zero (n := fuelLeft) (by omega)
  refine ⟨fuelLeft, by grind, fun state shown => ?_⟩
  have readsRight : (expression fuelLeft op.rightPower).Reads right (next :: rest) rightExpr :=
    readsRight.reads ⟨notCall, notIndex⟩ (fun other seen => by grind [layer_rightPower])
      (layer_rightPower op).le (by grind)
  have shownLeft : state.tokens = left ++ mark :: (right ++ next :: rest) := by simpa using shown
  have shownMark := State.tokens_past shownLeft (by simp)
  have strong : ¬ op.leftPower < power := by
    rw [leftPower_lt_iff]
    omega
  rw [same state shownLeft]
  simp only [operators, current_bind_apply, State.current_of_tokens shownMark, found]
  rw [if_neg strong, Step.Reads.bind_apply .take shownMark (by simp),
    readsRight.bind_apply (State.tokens_past shownMark (by simp)) (by simp), ← State.past_append,
    ← State.past_append]
  simp

private theorem reads_unary {operandExpr : Expr} {op : UnaryOp} (found : UnaryOp.ofKind? mark.kind = some op)
    (reads : ReadsExpr 7 tokens operandExpr) :
    ReadsOperand (mark :: tokens) (.unary op operandExpr (mark.span.through operandExpr.span)) := by
  intro next rest fuel notCall notIndex adequate
  obtain _ | fuel := fuel
  · omega
  have readsValue : (expression fuel UnaryOp.power).Reads tokens (next :: rest) operandExpr :=
    reads.reads ⟨notCall, notIndex⟩ (fun op _ => (level_le op).trans_lt (by decide)) (by decide) (by grind)
  simp only [operand, current_bind_reads, found]
  exact .one .take (.finish readsValue)

private theorem reads_intLit (found : token.kind = .integerLiteral) :
    ReadsOperand [token] (.intLit token.value token.span) := by
  intro next rest fuel _ _ adequate
  obtain _ | fuel := fuel
  · omega
  simp only [operand, current_bind_reads, found, UnaryOp.ofKind?]
  exact .finish .take

private theorem reads_floatLit (found : token.kind = .floatLiteral) :
    ReadsOperand [token] (.floatLit token.value token.span) := by
  intro next rest fuel _ _ adequate
  obtain _ | fuel := fuel
  · omega
  simp only [operand, current_bind_reads, found, UnaryOp.ofKind?]
  exact .finish .take

private theorem reads_paren (opens : opening.kind = .leftParen) (reads : ReadsExpr 1 tokens expr)
    (closes : closing.kind = .rightParen) : ReadsOperand (opening :: tokens ++ [closing]) expr := by
  intro next rest fuel _ _ adequate
  obtain _ | fuel := fuel
  · omega
  have readsInner : (expression fuel 0).Reads tokens (closing :: next :: rest) expr :=
    reads.reads_of_ends (by rw [closes]; decide) (by grind)
  simp only [operand, cons_append, current_bind_reads, opens, UnaryOp.ofKind?]
  exact .one .take (.bind readsInner (.finish (.close closes _)))

private theorem reads_lval (named : name.kind = .identifier) (reads : ReadsIndices name.span tokens indices stop)
    (starts : ∀ first rest, tokens = first :: rest → first.kind = .leftBracket) :
    ReadsOperand (name :: tokens)
      (.lval { name := name.value, span := name.span } indices (name.span.through stop)) := by
  intro next rest fuel notCall notIndex adequate
  obtain _ | fuel := fuel
  · omega
  have readsIndices := reads notIndex (show 4 * (tokens.length + rest.length) + 1 ≤ fuel by grind)
  simp only [operand, current_bind_reads, named, UnaryOp.ofKind?]
  refine .one .take ?_
  cases tokens with
  | nil =>
    rw [sees_bind_reads_nil, beq_false_of_ne notCall]
    exact .finish readsIndices
  | cons first others =>
    rw [sees_bind_reads, starts first others rfl]
    exact .finish readsIndices

private theorem reads_call_none (named : name.kind = .identifier) (opens : opening.kind = .leftParen)
    (closes : closing.kind = .rightParen) :
    ReadsOperand [name, opening, closing]
      (.call { name := name.value, span := name.span } [] (name.span.through closing.span)) := by
  intro next rest fuel _ _ adequate
  obtain _ | fuel := fuel
  · omega
  simp only [operand, current_bind_reads, named, UnaryOp.ofKind?]
  refine .one .take ?_
  rw [sees_bind_reads, opens]
  refine .one .take ?_
  rw [sees_bind_reads, closes]
  exact .finish (.close closes _)

private theorem reads_call {arguments : List Expr} (named : name.kind = .identifier)
    (opens : opening.kind = .leftParen) (reads : ReadsList tokens arguments)
    (starts : ∃ first rest, tokens = first :: rest ∧ first.kind ∈ startsExpr) (closes : closing.kind = .rightParen) :
    ReadsOperand (name :: opening :: tokens ++ [closing])
      (.call { name := name.value, span := name.span } arguments (name.span.through closing.span)) := by
  intro next rest fuel _ _ adequate
  obtain _ | fuel := fuel
  · omega
  have readsArguments := reads closes (show 4 * (tokens.length + (next :: rest).length) + 4 ≤ fuel by grind)
  simp only [operand, cons_append, current_bind_reads, named, UnaryOp.ofKind?]
  refine .one .take ?_
  rw [sees_bind_reads, opens]
  refine .one .take ?_
  rw [sees_bind_reads_of_starts starts (by decide)]
  exact .bind readsArguments (.finish (.close closes _))

private theorem reads_nil : ReadsIndices start [] [] start := by
  intro next rest fuel notIndex adequate
  obtain _ | fuel := fuel
  · omega
  rw [indexList, sees_bind_reads_nil, beq_false_of_ne notIndex]
  exact .pure

private theorem reads_cons {more : List Token} {index : Expr} (opens : opening.kind = .leftBracket)
    (reads : ReadsExpr 1 tokens index) (closes : closing.kind = .rightBracket)
    (readsMore : ReadsIndices closing.span more indices stop) :
    ReadsIndices start (opening :: tokens ++ closing :: more) (index :: indices) stop := by
  intro next rest fuel notIndex adequate
  obtain _ | fuel := fuel
  · omega
  have readsIndex : (expression fuel 0).Reads tokens (closing :: (more ++ next :: rest)) index :=
    reads.reads_of_ends (by rw [closes]; decide) (by grind)
  have readsOthers := readsMore notIndex (show 4 * (more.length + rest.length) + 1 ≤ fuel by grind)
  rw [indexList, cons_append, sees_bind_reads, opens]
  exact .one .take (.bind readsIndex (.one (.close closes _) (.finish readsOthers)))

private theorem reads_single (reads : ReadsExpr 1 tokens expr) : ReadsList tokens [expr] := by
  intro next rest fuel closes adequate
  obtain _ | fuel := fuel
  · omega
  rw [expressionList]
  exact .single (reads.reads_of_ends (by rw [closes]; decide) (by omega)) (by simp [closes])

private theorem reads_more {others : List Token} {comma : Token} (reads : ReadsExpr 1 tokens expr)
    (found : comma.kind = .comma) (readsMore : ReadsList others exprs) :
    ReadsList (tokens ++ comma :: others) (expr :: exprs) := by
  intro next rest fuel closes adequate
  obtain _ | fuel := fuel
  · omega
  rw [expressionList]
  exact .more (reads.reads_of_ends (by rw [found]; decide) (by grind)) found (readsMore closes (by grind))

theorem Indices_starts (derived : Indices start tokens indices stop) (first : Token) (rest : List Token)
    (split : tokens = first :: rest) : first.kind = .leftBracket := by
  cases derived with
  | nil => cases split
  | cons opens =>
    cases split
    exact opens

theorem ExprList_starts (derived : ExprList tokens exprs) :
    ∃ first rest, tokens = first :: rest ∧ first.kind ∈ startsExpr := by
  cases derived with
  | single derived => exact ExprAt_starts derived
  | more derived =>
    obtain ⟨first, _, rfl, starts⟩ := ExprAt_starts derived
    exact ⟨first, _, rfl, starts⟩

private theorem exprAt_reads (derived : ExprAt level tokens expr) : ReadsExpr level tokens expr := by
  induction derived using ExprAt.rec
    (motive_2 := fun start tokens indices stop _ => ReadsIndices start tokens indices stop)
    (motive_3 := fun tokens exprs _ => ReadsList tokens exprs) with
  | tighter _ _ reads => exact reads_tighter reads
  | binary _ found _ readsLeft readsRight => exact reads_binary readsLeft found readsRight
  | unary found _ reads => exact (reads_unary found reads).reads
  | intLit found => exact (reads_intLit found).reads
  | floatLit found => exact (reads_floatLit found).reads
  | lval named inside reads => exact (reads_lval named reads (Indices_starts inside)).reads
  | callNone named opens closes => exact (reads_call_none named opens closes).reads
  | call named opens inside closes reads => exact (reads_call named opens reads (ExprList_starts inside) closes).reads
  | paren opens _ closes reads => exact (reads_paren opens reads closes).reads
  | nil => exact reads_nil
  | cons opens _ closes _ reads readsMore => exact reads_cons opens reads closes readsMore
  | single _ reads => exact reads_single reads
  | more _ found _ reads readsMore => exact reads_more reads found readsMore

theorem expression_reads (derived : ExprAt 1 tokens expr) (ends : EndsExpr next.kind)
    (adequate : 4 * (tokens.length + rest.length) + 3 ≤ fuel) : (expression fuel 0).Reads tokens (next :: rest) expr :=
  (exprAt_reads derived).reads_of_ends ends adequate

private theorem indices_read (derived : Indices start tokens indices stop) :
    ReadsIndices start tokens indices stop := by
  induction derived using Indices.rec (motive_1 := fun _ _ _ _ => True)
    (motive_3 := fun _ _ _ => True) with
  | nil => exact reads_nil
  | cons opens inside closes _ _ readsMore => exact reads_cons opens (exprAt_reads inside) closes readsMore
  | _ => trivial

theorem indexList_reads (derived : Indices start tokens indices stop) (ends : next.kind ≠ .leftBracket)
    (adequate : 4 * (tokens.length + rest.length) + 1 ≤ fuel) :
    (indexList fuel start).Reads tokens (next :: rest) (indices, stop) :=
  indices_read derived ends adequate

end SysYTools.Parser
