import SysYTools.Proofs.Tree.Reading

/-!
The parser decides the grammar: it accepts exactly the token lists that have a derivation, and it gives the
tree of one.

An `else` after a statement that could take it is taken. So derivations are read that give every `else` to
the nearest `if`, and every derivation can be changed into one of these.
-/

namespace SysYTools.Parser

open List Grammar

variable {α : Type}
variable {after body more rest tokens : List Token} {closing first keyword next opening stop : Token}
  {condition expr : Expr} {declaration : Decl} {defs : List VarDef} {fuel : Nat} {function : FuncDef}
  {init : InitVal} {inits : List InitVal} {params : List Param} {statement : Stmt}
  {var : VarDef}

/-! ## Declarations -/

theorem Initializer_starts (derived : Initializer tokens init) :
    ∃ first rest, tokens = first :: rest ∧ first.kind ∈ .leftBrace :: startsExpr := by
  cases derived with
  | expr derived =>
    obtain ⟨first, rest, rfl, starts⟩ := ExprAt_starts derived
    exact ⟨first, rest, rfl, mem_cons_of_mem _ starts⟩
  | empty opens _ | list opens _ _ => exact ⟨_, _, rfl, by simp [opens]⟩

theorem InitializerList_starts (derived : InitializerList tokens inits) :
    ∃ first rest, tokens = first :: rest ∧ first.kind ∈ .leftBrace :: startsExpr := by
  cases derived with
  | single derived => exact Initializer_starts derived
  | more derived =>
    obtain ⟨first, _, rfl, starts⟩ := Initializer_starts derived
    exact ⟨first, _, rfl, starts⟩

private def ReadsInit (tokens : List Token) (init : InitVal) : Prop :=
  ∀ ⦃next : Token⦄ ⦃rest : List Token⦄ ⦃fuel : Nat⦄, EndsExpr next.kind →
    4 * (tokens.length + rest.length) + 4 ≤ fuel → (initVal fuel).Reads tokens (next :: rest) init

private def ReadsInits (tokens : List Token) (inits : List InitVal) : Prop :=
  ∀ ⦃next : Token⦄ ⦃rest : List Token⦄ ⦃fuel : Nat⦄, next.kind = .rightBrace →
    4 * (tokens.length + rest.length) + 5 ≤ fuel → (initValList fuel).Reads tokens (next :: rest) inits

private theorem reads_init_expr (derived : ExprAt 1 tokens expr) : ReadsInit tokens (.expr expr) := by
  intro next rest fuel ends adequate
  obtain _ | fuel := fuel
  · omega
  rw [initVal, ← append_nil tokens, sees_bind_reads_of_starts (ExprAt_starts derived) (by decide), append_nil]
  exact .finish (expression_reads derived ends (by omega))

private theorem reads_init_empty (opens : opening.kind = .leftBrace) (closes : closing.kind = .rightBrace) :
    ReadsInit [opening, closing] (.list [] (opening.span.through closing.span)) := by
  intro next rest fuel _ adequate
  obtain _ | fuel := fuel
  · omega
  rw [initVal, sees_bind_reads, opens]
  refine .one .take ?_
  rw [sees_bind_reads, closes]
  exact .finish (.close closes _)

private theorem reads_init_list {elements : List InitVal} (opens : opening.kind = .leftBrace)
    (derived : InitializerList tokens elements) (reads : ReadsInits tokens elements)
    (closes : closing.kind = .rightBrace) :
    ReadsInit (opening :: tokens ++ [closing]) (.list elements (opening.span.through closing.span)) := by
  intro next rest fuel _ adequate
  obtain _ | fuel := fuel
  · omega
  have readsElements := reads closes (show 4 * (tokens.length + (next :: rest).length) + 5 ≤ fuel by grind)
  rw [initVal, cons_append, sees_bind_reads, opens]
  refine .one .take ?_
  rw [sees_bind_reads_of_starts (InitializerList_starts derived) (by decide)]
  exact .bind readsElements (.finish (.close closes _))

private theorem reads_inits_single (reads : ReadsInit tokens init) : ReadsInits tokens [init] := by
  intro next rest fuel closes adequate
  obtain _ | fuel := fuel
  · omega
  rw [initValList]
  exact .single (reads (by rw [closes]; decide) (by omega)) (by simp [closes])

private theorem reads_inits_more {others : List Token} {comma : Token} (reads : ReadsInit tokens init)
    (found : comma.kind = .comma) (readsMore : ReadsInits others inits) :
    ReadsInits (tokens ++ comma :: others) (init :: inits) := by
  intro next rest fuel closes adequate
  obtain _ | fuel := fuel
  · omega
  rw [initValList]
  exact .more (reads (by rw [found]; decide) (by grind)) found (readsMore closes (by grind))

theorem initVal_reads (derived : Initializer tokens init) (ends : EndsExpr next.kind)
    (adequate : 4 * (tokens.length + rest.length) + 4 ≤ fuel) : (initVal fuel).Reads tokens (next :: rest) init := by
  have reads : ReadsInit tokens init := by
    clear adequate
    induction derived using Initializer.rec
      (motive_2 := fun tokens inits _ => ReadsInits tokens inits) with
    | expr derived => exact reads_init_expr derived
    | empty opens closes => exact reads_init_empty opens closes
    | list opens derived closes reads => exact reads_init_list opens derived reads closes
    | single _ reads => exact reads_inits_single reads
    | more _ found _ reads readsMore => exact reads_inits_more reads found readsMore
  exact reads ends adequate

theorem varDef_reads (derived : Definition tokens var) (ends : next.kind = .comma ∨ next.kind = .semicolon)
    (adequate : 4 * (tokens.length + rest.length) + 4 ≤ fuel) : (varDef fuel).Reads tokens (next :: rest) var := by
  have endsExpr : EndsExpr next.kind ∧ next.kind ≠ .assign := by
    rcases ends with kind | kind <;> rw [kind] <;> decide
  cases derived with
  | plain named inside =>
    refine .one (.expect named _) (.last (indexList_reads inside endsExpr.1.2.1 (by grind)) ?_)
    rw [sees_bind_reads_nil, beq_false_of_ne endsExpr.2]
    exact .pure
  | initialized named inside assigns derivedInit =>
    rw [cons_append]
    refine .one (.expect named _) (.bind (indexList_reads inside (by simp [assigns]) (by grind [append_eq])) ?_)
    rw [sees_bind_reads, assigns]
    exact .one .take (.finish (initVal_reads derivedInit endsExpr.1 (by grind)))

/-- A list with commas is read if its parts are, before a comma and before the end of the list. -/
theorem Step.Reads.separated {form : List Token → α → Prop} {part : Nat → Step α}
    {list : Nat → Step (List α)} {values : List α} {enough : Nat} {ending : TokenKind}
    (unfolds : ∀ fuel, list (fuel + 1) = (part fuel).separated (list fuel))
    (reads : ∀ {tokens rest : List Token} {next : Token} {fuel : Nat} {value : α}, form tokens value →
      next.kind = .comma ∨ next.kind = ending → 4 * (tokens.length + rest.length) + enough ≤ fuel →
      (part fuel).Reads tokens (next :: rest) value)
    (derived : Separated form tokens values) (ends : next.kind = ending) (notComma : ending ≠ .comma)
    (adequate : 4 * (tokens.length + rest.length) + (enough + 1) ≤ fuel) :
    (list fuel).Reads tokens (next :: rest) values := by
  induction derived generalizing fuel with
  | single derived =>
    obtain _ | fuel := fuel
    · omega
    rw [unfolds]
    exact .single (reads derived (.inr ends) (by omega)) (ends ▸ notComma)
  | more derived found _ ih =>
    obtain _ | fuel := fuel
    · omega
    rw [unfolds]
    exact .more (reads derived (.inl found) (by grind)) found (ih (by grind))

theorem varDefList_reads (derived : Separated Definition tokens defs) (ends : next.kind = .semicolon)
    (adequate : 4 * (tokens.length + rest.length) + 5 ≤ fuel) : (varDefList fuel).Reads tokens (next :: rest) defs :=
  .separated (fun _ => rfl) varDef_reads derived ends (by decide) adequate

theorem decl_reads (derived : Declaring tokens declaration) (adequate : 4 * (tokens.length + after.length) + 1 ≤ fuel) :
    (decl fuel).Reads tokens after declaration := by
  cases derived with
  | @plain type stop defTokens baseType defs typed inside stops =>
    have notConst : type.kind ≠ .constKeyword := by
      intro kind
      simp [kind, BaseType.ofKind?] at typed
    rw [decl, cons_append, current_bind_reads, sees_bind_reads, beq_false_of_ne notConst]
    exact .one (.baseType typed)
      (.bind (varDefList_reads inside stops (by grind [append_eq])) (.finish (.close stops _)))
  | const isConst typed inside stops =>
    rw [decl, cons_append, cons_append, current_bind_reads, sees_bind_reads, isConst]
    exact .one .take (.one (.baseType typed)
      (.bind (varDefList_reads inside stops (by grind [append_eq])) (.finish (.close stops _))))

/-! ## Statements -/

/-- The kinds of token that a statement can start with. -/
def startsStmt : List TokenKind :=
  startsExpr ++ [.leftBrace, .ifKeyword, .whileKeyword, .breakKeyword, .continueKeyword, .returnKeyword, .semicolon]

theorem Statement_starts {stmt : Stmt} (derived : Statement tokens stmt) :
    ∃ first rest, tokens = first :: rest ∧ first.kind ∈ startsStmt := by
  cases derived with
  | assign target =>
    obtain ⟨first, rest, rfl, starts⟩ := ExprAt_starts target.exprAt
    exact ⟨first, _, rfl, mem_append_left _ starts⟩
  | expr inside =>
    obtain ⟨first, _, rfl, starts⟩ := ExprAt_starts inside
    exact ⟨first, _, rfl, mem_append_left _ starts⟩
  | empty found | block found | branch found | branchElse found | loop found | breakLoop found
  | continueLoop found | giveNothing found | giveBack found => exact ⟨_, _, rfl, by simp [found, startsStmt]⟩

theorem Declaring_starts (derived : Declaring tokens declaration) :
    ∃ first rest, tokens = first :: rest ∧ first.kind ∈ [TokenKind.constKeyword, .intKeyword, .floatKeyword] := by
  cases derived with
  | @plain type _ _ _ _ typed _ _ =>
    refine ⟨_, _, rfl, ?_⟩
    revert typed
    cases type.kind <;> simp [BaseType.ofKind?]
  | const found => exact ⟨_, _, rfl, by simp [found]⟩

private def ReadsStmt (tokens : List Token) (statement : Stmt) : Prop :=
  ∀ ⦃next : Token⦄ ⦃rest : List Token⦄ ⦃fuel : Nat⦄, statement.NearestElse →
    (statement.endsOpen = true → next.kind ≠ .elseKeyword) → 4 * (tokens.length + rest.length) + 5 ≤ fuel →
    (stmt fuel).Reads tokens (next :: rest) statement

private def ReadsItems (tokens : List Token) (items : List BlockItem) : Prop :=
  ∀ ⦃next : Token⦄ ⦃rest : List Token⦄ ⦃fuel : Nat⦄, next.kind = .rightBrace → BlockItem.AllNearestElse items →
    4 * (tokens.length + rest.length) + 7 ≤ fuel → (blockItems fuel).Reads tokens (next :: rest) items

private theorem stmt_simple (derived : ExprAt 1 tokens expr)
    (reads : (simpleStmt fuel).Reads (tokens ++ more) after statement) :
    (stmt (fuel + 1)).Reads (tokens ++ more) after statement := by
  obtain ⟨_, _, rfl, starts⟩ := ExprAt_starts derived
  rw [cons_append] at reads ⊢
  simp only [startsExpr, mem_cons, not_mem_nil, or_false] at starts
  rcases starts with kind | kind | kind | kind | kind | kind | kind <;>
    simpa only [stmt, current_bind_reads, kind] using reads

private theorem reads_assign {target value : List Token} {sign : Token} {reference : Reference}
    {indices : List Expr} {span : Span} (derivedTarget : Target target reference indices span)
    (assigns : sign.kind = .assign) (derived : ExprAt 1 value expr) (stops : stop.kind = .semicolon) :
    ReadsStmt (target ++ sign :: value ++ [stop]) (.assign reference indices span expr (span.through stop.span)) := by
  intro next rest fuel _ _ adequate
  obtain _ | fuel := fuel
  · omega
  rw [append_assoc, cons_append]
  refine stmt_simple derivedTarget.exprAt (.bind (expression_reads derivedTarget.exprAt ?_ (by grind [append_eq])) ?_)
  · rw [assigns]
    decide
  · rw [sees_bind_reads, assigns]
    exact .one .take (.bind (expression_reads derived (by rw [stops]; decide) (by grind [append_eq]))
      (.finish (.close stops _)))

private theorem reads_expr (derived : ExprAt 1 tokens expr) (stops : stop.kind = .semicolon) :
    ReadsStmt (tokens ++ [stop]) (.expr (some expr) (expr.span.through stop.span)) := by
  intro next rest fuel _ _ adequate
  obtain _ | fuel := fuel
  · omega
  refine stmt_simple derived (.bind (expression_reads derived (by rw [stops]; decide) (by grind [append_eq])) ?_)
  rw [sees_bind_reads, stops]
  exact .finish (.close stops _)

private theorem head_reads (opens : opening.kind = .leftParen) (derived : ExprAt 1 tokens condition)
    (closes : closing.kind = .rightParen) (adequate : 4 * (tokens.length + (more ++ after).length) + 3 ≤ fuel)
    (word : String) {next : Expr → Step α} {result : α} (further : (next condition).Reads more after result) :
    (take >>= fun _ => openParen word >>= fun _ => expression fuel 0 >>= fun condition =>
      closeParen >>= fun _ => next condition).Reads (keyword :: (opening :: (tokens ++ closing :: more))) after
        result :=
  .one .take (.one (.openParen opens word)
    (.bind (expression_reads derived (by rw [closes]; decide) adequate) (.one (.close closes _) further)))

private theorem reads_block {items : List BlockItem} (opens : opening.kind = .leftBrace)
    (reads : ReadsItems tokens items) (closes : closing.kind = .rightBrace) (nearest : BlockItem.AllNearestElse items)
    (adequate : 4 * (tokens.length + after.length) + 8 ≤ fuel) :
    (block fuel).Reads (opening :: (tokens ++ [closing])) after (items, opening.span.through closing.span) := by
  obtain _ | fuel := fuel
  · omega
  rw [block]
  exact .one (.expect opens _) (.bind (reads closes nearest (by grind [append_eq])) (.finish (.close closes _)))

section Conditions

variable (opens : opening.kind = .leftParen) (derived : ExprAt 1 tokens condition)
  (closes : closing.kind = .rightParen) (reads : ReadsStmt body statement)
include opens derived closes reads

private theorem reads_branch (found : keyword.kind = .ifKeyword) :
    ReadsStmt (keyword :: opening :: tokens ++ closing :: body)
      (.branch condition statement none (keyword.span.through statement.span)) := by
  intro next rest fuel nearest full adequate
  obtain _ | fuel := fuel
  · omega
  simp only [stmt, cons_append, current_bind_reads, found]
  refine head_reads opens derived closes (by grind) "if" (.last (reads nearest (fun _ => full rfl) (by grind)) ?_)
  rw [sees_bind_reads_nil, beq_false_of_ne (full rfl)]
  exact .pure

private theorem reads_branchElse {mark : Token} {other : List Token} {elsePart : Stmt}
    (found : keyword.kind = .ifKeyword) (otherwise : mark.kind = .elseKeyword) (readsElse : ReadsStmt other elsePart) :
    ReadsStmt (keyword :: opening :: tokens ++ closing :: body ++ mark :: other)
      (.branch condition statement (some elsePart) (keyword.span.through elsePart.span)) := by
  intro next rest fuel nearest full adequate
  obtain _ | fuel := fuel
  · omega
  obtain ⟨thenFull, nearestThen, nearestElse⟩ := nearest
  have readsThen : (stmt fuel).Reads body (mark :: (other ++ next :: rest)) statement :=
    reads nearestThen (fun isOpen => absurd (thenFull.symm.trans isOpen) Bool.false_ne_true) (by grind)
  simp only [stmt, cons_append, append_assoc, current_bind_reads, found]
  refine head_reads opens derived closes (by grind) "if" (.bind readsThen ?_)
  rw [sees_bind_reads, otherwise]
  exact .one .take (.finish (readsElse nearestElse full (by grind)))

private theorem reads_loop (found : keyword.kind = .whileKeyword) :
    ReadsStmt (keyword :: opening :: tokens ++ closing :: body)
      (.loop condition statement (keyword.span.through statement.span)) := by
  intro next rest fuel nearest full adequate
  obtain _ | fuel := fuel
  · omega
  simp only [stmt, cons_append, current_bind_reads, found]
  exact head_reads opens derived closes (by grind) "while" (.finish (reads nearest full (by grind)))

end Conditions

private theorem reads_empty (stops : stop.kind = .semicolon) : ReadsStmt [stop] (.expr none stop.span) := by
  intro next rest fuel _ _ adequate
  obtain _ | fuel := fuel
  · omega
  simp only [stmt, current_bind_reads, stops]
  exact .finish .take

private theorem reads_breakLoop (found : keyword.kind = .breakKeyword) (stops : stop.kind = .semicolon) :
    ReadsStmt [keyword, stop] (.breakLoop (keyword.span.through stop.span)) := by
  intro next rest fuel _ _ adequate
  obtain _ | fuel := fuel
  · omega
  simp only [stmt, current_bind_reads, found]
  exact .one .take (.finish (.close stops _))

private theorem reads_continueLoop (found : keyword.kind = .continueKeyword) (stops : stop.kind = .semicolon) :
    ReadsStmt [keyword, stop] (.continueLoop (keyword.span.through stop.span)) := by
  intro next rest fuel _ _ adequate
  obtain _ | fuel := fuel
  · omega
  simp only [stmt, current_bind_reads, found]
  exact .one .take (.finish (.close stops _))

private theorem reads_giveNothing (found : keyword.kind = .returnKeyword) (stops : stop.kind = .semicolon) :
    ReadsStmt [keyword, stop] (.giveBack none (keyword.span.through stop.span)) := by
  intro next rest fuel _ _ adequate
  obtain _ | fuel := fuel
  · omega
  simp only [stmt, current_bind_reads, found]
  refine .one .take ?_
  rw [sees_bind_reads, stops]
  exact .finish (.close stops _)

private theorem reads_giveBack (found : keyword.kind = .returnKeyword) (derived : ExprAt 1 tokens expr)
    (stops : stop.kind = .semicolon) :
    ReadsStmt (keyword :: tokens ++ [stop]) (.giveBack (some expr) (keyword.span.through stop.span)) := by
  intro next rest fuel _ _ adequate
  obtain _ | fuel := fuel
  · omega
  simp only [stmt, cons_append, current_bind_reads, found]
  refine .one .take ?_
  rw [sees_bind_reads_of_starts (ExprAt_starts derived) (by decide)]
  exact .bind (.finish (expression_reads derived (by rw [stops]; decide) (by grind [append_eq])))
    (.finish (.close stops _))

private theorem reads_items_nil : ReadsItems [] [] := by
  intro next rest fuel closes _ adequate
  obtain _ | fuel := fuel
  · omega
  rw [blockItems, current_bind_reads_nil, if_pos (.inl closes)]
  exact .pure

private theorem items_reads {items : List BlockItem} {item : BlockItem} {kinds : List TokenKind}
    (starts : ∃ first rest, tokens = first :: rest ∧ first.kind ∈ kinds)
    (inside : .rightBrace ∉ kinds ∧ .endOfInput ∉ kinds) (reads : (blockItem fuel).Reads tokens (more ++ after) item)
    (further : (blockItems fuel).Reads more after items) :
    (blockItems (fuel + 1)).Reads (tokens ++ more) after (item :: items) := by
  obtain ⟨first, _, rfl, isStart⟩ := starts
  have goesOn : ¬ (first.kind = .rightBrace ∨ first.kind = .endOfInput) := by
    rintro (kind | kind)
    · exact inside.1 (kind ▸ isStart)
    · exact inside.2 (kind ▸ isStart)
  rw [blockItems, cons_append, current_bind_reads, if_neg goesOn, ← cons_append]
  exact .bind reads.attempt (.finish further)

theorem Items_starts {items : List BlockItem} (derived : Items tokens items) (split : tokens = first :: rest) :
    first.kind ≠ .elseKeyword := by
  cases derived with
  | nil => cases split
  | decl declares =>
    obtain ⟨start, more, rfl, starts⟩ := Declaring_starts declares
    cases split
    intro kind
    simp [kind] at starts
  | stmt states =>
    obtain ⟨_, _, rfl, starts⟩ := Statement_starts states
    cases split
    intro kind
    simp [kind, startsStmt, startsExpr] at starts

private theorem reads_items_decl {items : List BlockItem} (derived : Declaring tokens declaration)
    (reads : ReadsItems more items) : ReadsItems (tokens ++ more) (.decl declaration :: items) := by
  intro next rest fuel closes nearest adequate
  obtain ⟨fuel, rfl⟩ := Nat.exists_eq_add_of_le' (show 2 ≤ fuel by omega)
  have starts := Declaring_starts derived
  have readsDecl := decl_reads derived (show 4 * (tokens.length + (more ++ next :: rest).length) + 1 ≤ fuel by grind)
  refine items_reads starts (by decide) ?_ (reads closes nearest.2 ?_)
  · obtain ⟨first, others, rfl, isStart⟩ := starts
    simp only [mem_cons, not_mem_nil, or_false] at isStart
    rcases isStart with kind | kind | kind <;>
      simp only [blockItem, current_bind_reads, kind] <;> exact .finish readsDecl
  · obtain ⟨_, _, rfl, -⟩ := starts
    grind

private theorem reads_items_stmt {items : List BlockItem} (derived : Statement tokens statement)
    (reads : ReadsStmt tokens statement) (derivedMore : Items more items) (readsMore : ReadsItems more items) :
    ReadsItems (tokens ++ more) (.stmt statement :: items) := by
  intro next rest fuel closes nearest adequate
  obtain ⟨fuel, rfl⟩ := Nat.exists_eq_add_of_le' (show 2 ≤ fuel by omega)
  obtain ⟨following, others, split, notElse⟩ : ∃ following others,
      more ++ next :: rest = following :: others ∧ following.kind ≠ .elseKeyword := by
    cases more with
    | nil => exact ⟨next, rest, rfl, by simp [closes]⟩
    | cons first => exact ⟨first, _, rfl, Items_starts derivedMore rfl⟩
  have starts := Statement_starts derived
  have lengths := congrArg List.length split
  have readsStmt : (stmt fuel).Reads tokens (more ++ next :: rest) statement :=
    split ▸ reads nearest.1 (fun _ => notElse) (by grind)
  refine items_reads starts (by decide) ?_ (readsMore closes nearest.2 ?_)
  · obtain ⟨first, others, rfl, isStart⟩ := starts
    rw [blockItem, current_bind_reads]
    revert isStart
    cases first.kind <;> simp [startsStmt, startsExpr] <;> exact .finish readsStmt
  · obtain ⟨_, _, rfl, -⟩ := starts
    grind

private theorem items_read {items : List BlockItem} (derived : Items tokens items) : ReadsItems tokens items := by
  induction derived using Items.rec
    (motive_1 := fun tokens statement _ => ReadsStmt tokens statement) with
  | assign target assigns derived stops => exact reads_assign target assigns derived stops
  | expr derived stops => exact reads_expr derived stops
  | empty stops => exact reads_empty stops
  | block opens _ closes reads =>
    intro next rest fuel nearest _ adequate
    obtain _ | fuel := fuel
    · omega
    simp only [stmt, cons_append, current_bind_reads, opens]
    exact .finish (reads_block opens reads closes nearest (by grind))
  | branch found opens derived closes _ reads => exact reads_branch opens derived closes reads found
  | branchElse found opens derived closes _ otherwise _ reads readsElse =>
    exact reads_branchElse opens derived closes reads found otherwise readsElse
  | loop found opens derived closes _ reads => exact reads_loop opens derived closes reads found
  | breakLoop found stops => exact reads_breakLoop found stops
  | continueLoop found stops => exact reads_continueLoop found stops
  | giveNothing found stops => exact reads_giveNothing found stops
  | giveBack found derived stops => exact reads_giveBack found derived stops
  | nil => exact reads_items_nil
  | decl declares _ reads => exact reads_items_decl declares reads
  | stmt states further reads readsMore => exact reads_items_stmt states reads further readsMore

/-! ## Functions and programs -/

theorem param_reads {parameter : Param} (derived : Parameter tokens parameter) (ends : next.kind ≠ .leftBracket)
    (adequate : 4 * (tokens.length + rest.length) + 1 ≤ fuel) : (param fuel).Reads tokens (next :: rest) parameter := by
  cases derived with
  | plain typed named =>
    refine .one (.baseType typed) (.last (.expect named _) ?_)
    rw [sees_bind_reads_nil, beq_false_of_ne ends]
    exact .pure
  | array typed named opens closes inside =>
    refine .one (.baseType typed) (.one (.expect named _) ?_)
    rw [sees_bind_reads, opens]
    exact .one .take (.one (.close closes _) (.finish (indexList_reads inside ends (by grind))))

theorem paramList_reads (derived : Separated Parameter tokens params) (closes : next.kind = .rightParen)
    (adequate : 4 * (tokens.length + rest.length) + 2 ≤ fuel) : (paramList fuel).Reads tokens (next :: rest) params :=
  .separated (fun _ => rfl)
    (fun derived ends adequate => param_reads derived (by rcases ends with kind | kind <;> simp [kind]) adequate)
    derived closes (by decide) adequate

theorem Separated_Parameter_starts (derived : Separated Parameter tokens params) :
    ∃ first rest, tokens = first :: rest ∧ first.kind ∈ [TokenKind.intKeyword, .floatKeyword] := by
  have starts : ∀ {tokens : List Token} {parameter : Param}, Parameter tokens parameter →
      ∃ first rest, tokens = first :: rest ∧ first.kind ∈ [TokenKind.intKeyword, .floatKeyword] := by
    intro tokens parameter derived
    cases derived with
    | @plain type _ _ typed _ | @array type _ _ _ _ _ _ _ typed _ _ _ _ =>
      refine ⟨_, _, rfl, ?_⟩
      revert typed
      cases type.kind <;> simp [BaseType.ofKind?]
  cases derived with
  | single derived => exact starts derived
  | more derived =>
    obtain ⟨first, _, rfl, isStart⟩ := starts derived
    exact ⟨first, _, rfl, isStart⟩

theorem funcDef_reads (derived : Function tokens function) (nearest : BlockItem.AllNearestElse function.body)
    (adequate : 4 * (tokens.length + after.length) ≤ fuel) :
    (funcDef fuel function.returnType).Reads tokens after function := by
  cases derived with
  | @mk type name opening closing bodyOpening bodyClosing paramTokens body returnType params items
      typed named opens derivedParams closes bodyOpens derivedBody bodyCloses =>
    have readsBody := reads_block bodyOpens (items_read derivedBody) bodyCloses nearest
      (show 4 * (body.length + after.length) + 8 ≤ fuel by grind)
    simp only [cons_append, append_assoc]
    refine .one .take (.one (.expect named _) (.one (.expect opens _) ?_))
    cases derivedParams with
    | none =>
      rw [nil_append, sees_bind_reads, closes]
      exact .bind .pure (.one (.close closes _) (.finish readsBody))
    | some derivedParams =>
      rw [sees_bind_reads_of_starts (Separated_Parameter_starts derivedParams) (by decide)]
      exact .bind (paramList_reads derivedParams closes (by grind [append_eq]))
        (.one (.close closes _) (.finish readsBody))

private theorem Indices_follow {start stop : Span} {dims : List Expr} (derived : Indices start tokens dims stop)
    (notParen : next.kind ≠ .leftParen) (rest : List Token) :
    ∃ second more, tokens ++ next :: rest = second :: more ∧ second.kind ≠ .leftParen := by
  cases derived with
  | nil => exact ⟨next, rest, rfl, notParen⟩
  | cons opens => exact ⟨_, _, rfl, by simp [opens]⟩

private theorem Definition_follow (derived : Definition tokens var) (notParen : next.kind ≠ .leftParen)
    (rest : List Token) :
    ∃ name second more, tokens ++ next :: rest = name :: second :: more ∧ second.kind ≠ .leftParen := by
  cases derived with
  | plain _ dims =>
    obtain ⟨second, more, split, other⟩ := Indices_follow dims notParen rest
    exact ⟨_, second, more, congrArg _ split, other⟩
  | @initialized name sign _ initTokens _ _ _ _ dims assigns _ =>
    obtain ⟨second, more, split, other⟩ :=
      Indices_follow dims (show sign.kind ≠ .leftParen by simp [assigns]) (initTokens ++ next :: rest)
    exact ⟨name, second, more, by simp [split], other⟩

theorem Separated_Definition_follow (derived : Separated Definition tokens defs) (stops : stop.kind = .semicolon)
    (rest : List Token) :
    ∃ name second more, tokens ++ stop :: rest = name :: second :: more ∧ second.kind ≠ .leftParen := by
  cases derived with
  | single derived => exact Definition_follow derived (by simp [stops]) rest
  | @more _ others comma _ _ derived found _ =>
    obtain ⟨name, second, more, split, other⟩ :=
      Definition_follow derived (show comma.kind ≠ .leftParen by simp [found]) (others ++ stop :: rest)
    exact ⟨name, second, more, by simpa using split, other⟩

theorem item_reads_decl (derived : Declaring tokens declaration)
    (adequate : 4 * (tokens.length + after.length) + 1 ≤ fuel) :
    (item fuel).Reads tokens after (.decl declaration) := by
  have reads := decl_reads derived adequate
  cases derived with
  | const isConst =>
    rw [cons_append] at reads ⊢
    rw [item, current_bind_reads, if_pos isConst]
    exact .finish reads
  | @plain type stop defTokens baseType defs typed inside stops =>
    obtain ⟨name, second, more, split, notParen⟩ := Separated_Definition_follow inside stops after
    have notConst : type.kind ≠ .constKeyword := by
      intro kind
      simp [kind, BaseType.ofKind?] at typed
    have returns : ReturnType.ofKind? type.kind = some (.value baseType) := by
      revert typed
      cases type.kind <;> simp [ReturnType.ofKind?, BaseType.ofKind?]
    have shape : type :: (defTokens ++ [stop]) ++ after = type :: name :: second :: more := by simp [split]
    rw [cons_append] at reads ⊢
    simp only [item, current_bind_reads, if_neg notConst, returns]
    refine (kindAhead_bind_reads (by rw [shape]; rfl)).mpr ((kindAhead_bind_reads (by rw [shape]; rfl)).mpr ?_)
    rw [if_neg fun both => notParen both.2, if_neg (by simp)]
    exact .finish reads

theorem item_reads_func (derived : Function tokens function) (nearest : BlockItem.AllNearestElse function.body)
    (adequate : 4 * (tokens.length + after.length) ≤ fuel) : (item fuel).Reads tokens after (.func function) := by
  have reads := funcDef_reads derived nearest adequate
  cases derived with
  | @mk type name opening _ _ _ _ _ returnType _ _ typed named opens =>
    have notConst : type.kind ≠ .constKeyword := by
      intro kind
      simp [kind, ReturnType.ofKind?, BaseType.ofKind?] at typed
    simp only [cons_append] at reads ⊢
    simp only [item, current_bind_reads, if_neg notConst, typed]
    refine (kindAhead_bind_reads rfl).mpr ((kindAhead_bind_reads rfl).mpr ?_)
    rw [if_pos ⟨named, opens⟩]
    exact .finish reads

private theorem items_reads_cons {part : Item} {parts : List Item} (plain : first.kind ≠ .endOfInput)
    (reads : (item fuel).Reads (first :: tokens) (more ++ after) part)
    (further : (items fuel).Reads more after parts) :
    (items (fuel + 1)).Reads (first :: tokens ++ more) after (part :: parts) := by
  rw [items, cons_append, sees_bind_reads, beq_false_of_ne plain, ← cons_append]
  exact .bind reads.attempt (.finish further)

theorem Function_starts (derived : Function tokens function) : ∃ first rest, tokens = first :: rest := by
  cases derived with
  | mk => exact ⟨_, _, rfl⟩

theorem items_reads_program {program : List Item} (derived : TopLevel tokens program)
    (nearest : ∀ item ∈ program, item.NearestElse) (stops : stop.kind = .endOfInput)
    (plain : ∀ token ∈ tokens, token.kind ≠ .endOfInput) (adequate : 4 * tokens.length + 6 ≤ fuel) :
    (items fuel).Reads tokens [stop] program := by
  induction derived generalizing fuel with
  | nil =>
    obtain _ | fuel := fuel
    · omega
    rw [items, sees_bind_reads_nil, stops]
    exact .pure
  | decl declares _ ih =>
    obtain _ | fuel := fuel
    · omega
    obtain ⟨first, others, rfl, -⟩ := Declaring_starts declares
    refine items_reads_cons (plain first (by simp)) (item_reads_decl declares (by grind)) ?_
    exact ih (fun item member => nearest item (mem_cons_of_mem _ member))
      (fun token member => plain token (mem_append_right _ member)) (by grind)
  | func defines _ ih =>
    obtain _ | fuel := fuel
    · omega
    obtain ⟨first, _, rfl⟩ := Function_starts defines
    refine items_reads_cons (plain first (by simp)) (item_reads_func defines (nearest _ mem_cons_self) (by grind)) ?_
    exact ih (fun item member => nearest item (mem_cons_of_mem _ member))
      (fun token member => plain token (mem_append_right _ member)) (by grind)

end SysYTools.Parser
