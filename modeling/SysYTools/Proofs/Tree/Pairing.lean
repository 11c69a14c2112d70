import SysYTools.Proofs.Tree.MendingRun
import SysYTools.Proofs.Tree.Relocation
import SysYTools.Text.Bracket

/-!
Two runs of the parser over tokens that correspond. Of a token the parser reads the kind and the value, and
its place only to pass it on. So two lists of tokens with the same kinds and values take the parser through
corresponding states: it accepts or rejects in both runs, the trees have the same skeleton, and the same
problems are reported of corresponding tokens.

A pairing says which tokens correspond and which reports do. What the runs have to keep is said once for
all pairings. A run paired with itself tells which reports the parser can give at all.
-/

namespace SysYTools.Parser

open List

variable {token token' : Token} {problem : Problem} {keyword : String} {tokens : List Token}

/-- The problems that the parser may report of a token. -/
inductive Blames (token : Token) : Problem → Prop where
  | expected (expectation : Expectation) : Blames token (.expected expectation token.describe)
  | unexpected : Blames token (.unexpectedInExpression token.describe)
  | voidVariable : Blames token .voidVariable
  | badTarget : Blames token .badAssignmentTarget
  | semicolon : Blames token (.missingSemicolon token.value)
  | bracket {bracket : Char} : isClosingBracket bracket = true →
      Blames token (.missingBracket bracket token.value)
  | branchParen : Blames token (.missingBracket '(' "if")
  | loopParen : Blames token (.missingBracket '(' "while")

structure Pairing where
  /-- What stands for the places of words in the first run, and in the second one. -/
  left : Span → Span
  right : Span → Span
  tokens : Token → Token → Prop
  reports : Report → Report → Prop
  kind_eq : ∀ {token token' : Token}, tokens token token' → token.kind = token'.kind
  value_eq : ∀ {token token' : Token}, tokens token token' → token.value = token'.value
  span_eq : ∀ {token token' : Token}, tokens token token' → token.kind ≠ .endOfInput →
    left token.span = right token'.span
  blamed : ∀ {token token' : Token} {problem : Problem}, tokens token token' → Blames token problem →
    reports ⟨problem, token.span⟩ ⟨problem, token'.span⟩

namespace Pairing

variable {pairing : Pairing}

theorem describe_eq (paired : pairing.tokens token token') : token.describe = token'.describe := by
  rw [Token.describe, Token.describe, pairing.kind_eq paired, pairing.value_eq paired]

/-- Two states that correspond. -/
structure Pairs (pairing : Pairing) (state state' : State) : Prop where
  previous : Option.Rel pairing.tokens state.previous state'.previous
  current : pairing.tokens state.current state'.current
  rest : List.Forall₂ pairing.tokens state.rest state'.rest
  reports : List.Forall₂ pairing.reports state.reports state'.reports

/-- Two outcomes of one form, with values that correspond. -/
inductive Ends (pairing : Pairing) {α : Type} (same : α → α → Prop) : Outcome α → Outcome α → Prop where
  | accept {value value' : α} {state state' : State} (values : same value value')
      (states : pairing.Pairs state state') : Ends pairing same (.accept value state) (.accept value' state')
  | reject {state state' : State} (states : pairing.Pairs state state') :
      Ends pairing same (.reject state) (.reject state')
  | exhausted : Ends pairing same .exhausted .exhausted

/-- Two steps that take corresponding states to corresponding outcomes. -/
def Agree (pairing : Pairing) {α : Type} (same : α → α → Prop) (step step' : Step α) : Prop :=
  ∀ state state', pairing.Pairs state state' → pairing.Ends same (step state) (step' state')

abbrev Keeps (pairing : Pairing) {α : Type} (same : α → α → Prop) (step : Step α) : Prop := pairing.Agree same step step

/-- Two parts of trees with the same skeleton: they are the same once their words are pinned. -/
def Alike (pairing : Pairing) {α : Type} (relocate : Relocation → α → α) (value value' : α) : Prop :=
  relocate (.pinned pairing.left) value = relocate (.pinned pairing.right) value'

def AlikeAll (pairing : Pairing) {α : Type} (relocate : Relocation → α → α) (list list' : List α) : Prop :=
  list.map (relocate (.pinned pairing.left)) = list'.map (relocate (.pinned pairing.right))

theorem AlikeAll.nil {α : Type} {relocate : Relocation → α → α} : pairing.AlikeAll relocate [] [] := rfl

theorem AlikeAll.cons {α : Type} {relocate : Relocation → α → α} {value value' : α} {list list' : List α}
    (first : pairing.Alike relocate value value') (rest : pairing.AlikeAll relocate list list') :
    pairing.AlikeAll relocate (value :: list) (value' :: list') := by
  unfold Alike AlikeAll at *
  rw [map_cons, map_cons, first, rest]

/-! ## States -/

namespace Pairs

variable {state state' : State}

section

variable (states : pairing.Pairs state state')
include states

theorem last : pairing.tokens state.last state'.last := by
  have previous := states.previous
  unfold State.last
  cases left : state.previous with
  | none =>
    rw [left] at previous
    cases right : state'.previous with
    | none => exact states.current
    | some => rw [right] at previous; cases previous
  | some =>
    rw [left] at previous
    cases right : state'.previous with
    | none => rw [right] at previous; cases previous
    | some =>
      rw [right] at previous
      cases previous with
      | some paired => exact paired

theorem advance : pairing.Pairs state.advance state'.advance := by
  have rest := states.rest
  unfold State.advance
  cases left : state.rest with
  | nil =>
    rw [left] at rest
    rw [List.forall₂_nil_left_iff.mp rest]
    exact states
  | cons =>
    rw [left] at rest
    obtain ⟨_, _, paired, pairedMore, right⟩ := List.forall₂_cons_left_iff.mp rest
    rw [right]
    exact ⟨.some states.current, paired, pairedMore, states.reports⟩

theorem report
    (paired : pairing.tokens token token') (blames : Blames token problem) :
    pairing.Pairs (state.report problem token.span) (state'.report problem token'.span) :=
  ⟨states.previous, states.current, states.rest, rel_append states.reports (.cons (pairing.blamed paired blames) .nil)⟩

theorem kinds_eq : kinds state.tokens = kinds state'.tokens := by
  have paired : List.Forall₂ pairing.tokens state.tokens state'.tokens := .cons states.current states.rest
  generalize state.tokens = tokens at paired
  generalize state'.tokens = tokens' at paired
  induction paired with
  | nil => rfl
  | cons first _ ih =>
    simp only [kinds, map_cons, pairing.kind_eq first] at ih ⊢
    rw [ih]

end

theorem skipItem (outside : Bool) (states : pairing.Pairs state state') :
    pairing.Pairs (state.skipItem outside) (state'.skipItem outside) := by
  have run : ∀ {rest rest' : List Token}, rest.length = rest'.length → ∀ {state state' : State},
      pairing.Pairs state state' →
        pairing.Pairs (State.skipItem.go outside rest state) (State.skipItem.go outside rest' state') := by
    intro rest
    induction rest with
    | nil =>
      intro rest' sizes state state' states
      rw [eq_nil_of_length_eq_zero sizes.symm]
      exact states
    | cons _ _ ih =>
      intro rest' sizes state state' states
      cases rest' with
      | nil => cases sizes
      | cons =>
        have next := ih (Nat.succ.inj sizes) states.advance
        unfold State.skipItem.go
        rw [← pairing.kind_eq states.current]
        split
        · exact states
        · exact states.advance
        · cases outside with
          | false => exact states
          | true => exact states.advance
        · exact next
  exact run states.rest.length_eq states

end Pairs

/-! ## Steps -/

section Rules

variable {α β : Type} {same : α → α → Prop}

theorem Agree.pure {value value' : α} (values : same value value') :
    pairing.Agree same (Pure.pure value) (Pure.pure value') :=
  fun _ _ states => .accept values states

theorem Agree.exhausted : pairing.Agree same Step.exhausted Step.exhausted := fun _ _ _ => .exhausted

theorem Agree.bind {step step' : Step β} {next next' : β → Step α} {between : β → β → Prop}
    (first : pairing.Agree between step step')
    (second : ∀ value value', between value value' → pairing.Agree same (next value) (next' value')) :
    pairing.Agree same (step >>= next) (step' >>= next') := by
  intro state state' states
  have ends := first state state' states
  change pairing.Ends same (Step.andThen step next state) (Step.andThen step' next' state')
  unfold Step.andThen
  generalize step state = outcome at ends
  generalize step' state' = outcome' at ends
  cases ends with
  | accept values states => exact second _ _ values _ _ states
  | reject states => exact .reject states
  | exhausted => exact .exhausted

theorem Agree.attempt {step step' : Step α} (agree : pairing.Agree same step step') :
    pairing.Agree (Option.Rel same) step.attempt step'.attempt := by
  intro state state' states
  have ends := agree state state' states
  unfold Step.attempt
  generalize step state = outcome at ends
  generalize step' state' = outcome' at ends
  cases ends with
  | accept values states => exact .accept (.some values) states
  | reject states => exact .accept .none states
  | exhausted => exact .exhausted

theorem current_agree : pairing.Keeps pairing.tokens current := fun _ _ states => .accept states.current states

theorem take_agree : pairing.Keeps pairing.tokens take := fun _ _ states => .accept states.current states.advance

theorem kindAhead_agree (distance : Nat) : pairing.Keeps (· = ·) (kindAhead distance) := by
  intro state state' states
  refine .accept ?_ states
  rw [Mending.kindAhead_eq, Mending.kindAhead_eq, states.kinds_eq]

theorem skipItem_agree (outside : Bool) : pairing.Keeps (fun _ _ => True) (skipItem outside) :=
  fun _ _ states => .accept trivial (states.skipItem outside)

theorem sees_agree (kind : TokenKind) : pairing.Keeps (· = ·) (sees kind) := by
  intro state state' states
  refine .accept ?_ states
  rw [pairing.kind_eq states.current]

theorem Agree.sees {kind : TokenKind} {found found' missing missing' : Step α}
    (yes : pairing.Agree same found found') (no : pairing.Agree same missing missing') :
    pairing.Agree same (sees kind >>= fun seen => if seen = true then found else missing)
      (sees kind >>= fun seen => if seen = true then found' else missing') := by
  refine (sees_agree kind).bind ?_
  rintro seen _ rfl
  cases seen with
  | true => exact yes
  | false => exact no

theorem fail_agree (paired : pairing.tokens token token') (blames : Blames token problem) :
    pairing.Agree same (fail problem token.span) (fail problem token'.span) :=
  fun _ _ states => .reject (states.report paired blames)

theorem expect_agree (kind : TokenKind) (expectation : Expectation) :
    pairing.Keeps (fun token token' => pairing.tokens token token' ∧ token.kind = kind) (expect kind expectation) := by
  have run : ∀ state : State, expect kind expectation state =
      if state.current.kind = kind then .accept state.current state.advance
      else .reject (state.report (.expected expectation state.current.describe) state.current.span) := by
    intro state
    change (if state.current.kind = kind then take else fail _ _) state = _
    split <;> rfl
  intro state state' states
  have paired := states.current
  rw [run, run, ← pairing.kind_eq paired, ← describe_eq paired]
  by_cases found : state.current.kind = kind
  · rw [if_pos found, if_pos found]
    exact .accept ⟨paired, found⟩ states.advance
  · rw [if_neg found, if_neg found]
    exact .reject (states.report paired (.expected expectation))

/-- A mark that closes something. The place where it ends is no part of a skeleton. -/
theorem close_agree (kind : TokenKind) {problem : String → Problem}
    (blames : ∀ token : Token, Blames token (problem token.value)) :
    pairing.Keeps (fun _ _ => True) (close kind problem) := by
  intro state state' states
  have last := states.last
  unfold close
  rw [← pairing.kind_eq states.current, ← pairing.value_eq last]
  by_cases found : state.current.kind = kind
  · rw [if_pos found, if_pos found]
    exact .accept trivial states.advance
  · rw [if_neg found, if_neg found]
    exact .accept trivial (states.report last (blames _))

theorem semicolon_agree : pairing.Keeps (fun _ _ => True) semicolon :=
  close_agree .semicolon fun _ => .semicolon

theorem closeParen_agree : pairing.Keeps (fun _ _ => True) closeParen :=
  close_agree .rightParen fun _ => .bracket rfl

theorem closeBracket_agree : pairing.Keeps (fun _ _ => True) closeBracket :=
  close_agree .rightBracket fun _ => .bracket rfl

theorem closeBrace_agree : pairing.Keeps (fun _ _ => True) closeBrace :=
  close_agree .rightBrace fun _ => .bracket rfl

theorem openParen_agree (blames : ∀ token, Blames token (.missingBracket '(' keyword)) :
    pairing.Keeps (fun _ _ => True) (openParen keyword) := by
  refine current_agree.bind ?_
  intro token token' paired
  rw [← pairing.kind_eq paired]
  by_cases found : token.kind = .leftParen
  · rw [if_pos found, if_pos found]
    exact take_agree.bind fun _ _ _ => .pure trivial
  · rw [if_neg found, if_neg found]
    exact fun _ _ states => .accept trivial (states.report paired (blames token))

theorem Agree.separated {part part' : Step β} {rest rest' : Step (List β)} {relocate : Relocation → β → β}
    (first : pairing.Agree (pairing.Alike relocate) part part')
    (more : pairing.Agree (pairing.AlikeAll relocate) rest rest') :
    pairing.Agree (pairing.AlikeAll relocate) (part.separated rest) (part'.separated rest') := by
  refine first.bind fun value value' alike => .sees ?_ (.pure (.cons alike .nil))
  exact take_agree.bind fun _ _ _ => more.bind fun values values' alikes => .pure (.cons alike alikes)

end Rules

/-! ## Expressions -/

section Parts

theorem reference_alike (paired : pairing.tokens token token') (plain : token.kind ≠ .endOfInput) :
    pairing.Alike Reference.relocate ⟨token.value, token.span⟩ ⟨token'.value, token'.span⟩ := by
  simp only [Alike, Reference.relocate, pairing.value_eq paired, pairing.span_eq paired plain]

variable {reference reference' : Reference} {list list' : List Expr} {expr expr' other other' : Expr}

theorem lval_alike (references : pairing.Alike Reference.relocate reference reference')
    (indices : pairing.AlikeAll Expr.relocate list list') (span span' : Span) :
    pairing.Alike Expr.relocate (.lval reference list span) (.lval reference' list' span') := by
  unfold Alike AlikeAll at *
  simp only [Expr.relocate, Expr.relocateAll_eq, references, indices]

theorem call_alike (references : pairing.Alike Reference.relocate reference reference')
    (arguments : pairing.AlikeAll Expr.relocate list list') (span span' : Span) :
    pairing.Alike Expr.relocate (.call reference list span) (.call reference' list' span') := by
  unfold Alike AlikeAll at *
  simp only [Expr.relocate, Expr.relocateAll_eq, references, arguments]

theorem unary_alike (op : UnaryOp) (operands : pairing.Alike Expr.relocate expr expr') (span span' : Span) :
    pairing.Alike Expr.relocate (.unary op expr span) (.unary op expr' span') := by
  unfold Alike at *
  rw [Expr.relocate, Expr.relocate, operands]

theorem binary_alike (op : BinaryOp) (left : pairing.Alike Expr.relocate expr expr')
    (right : pairing.Alike Expr.relocate other other') (span span' : Span) :
    pairing.Alike Expr.relocate (.binary expr op other span) (.binary expr' op other' span') := by
  unfold Alike at *
  rw [Expr.relocate, Expr.relocate, left, right]

end Parts

/-- What is said of all expressions that a given fuel can read. -/
structure ExpressionsAgree (pairing : Pairing) (fuel : Nat) : Prop where
  expression : ∀ power, pairing.Keeps (pairing.Alike Expr.relocate) (expression fuel power)
  operators : ∀ power left left', pairing.Alike Expr.relocate left left' →
    pairing.Agree (pairing.Alike Expr.relocate) (operators fuel power left) (operators fuel power left')
  operand : pairing.Keeps (pairing.Alike Expr.relocate) (operand fuel)
  list : pairing.Keeps (pairing.AlikeAll Expr.relocate) (expressionList fuel)
  indices : ∀ stop stop', pairing.Agree (fun found found' => pairing.AlikeAll Expr.relocate found.1 found'.1)
    (indexList fuel stop) (indexList fuel stop')

section Expressions

variable {fuel : Nat}

section

variable (agree : pairing.ExpressionsAgree fuel)
include agree

theorem expression_succ (power : Nat) : pairing.Keeps (pairing.Alike Expr.relocate) (expression (fuel + 1) power) := by
  simp only [Parser.expression]
  exact agree.operand.bind (agree.operators power)

theorem operators_succ (power : Nat) {left left' : Expr} (alike : pairing.Alike Expr.relocate left left') :
    pairing.Agree (pairing.Alike Expr.relocate) (operators (fuel + 1) power left)
      (operators (fuel + 1) power left') := by
  simp only [Parser.operators]
  refine current_agree.bind fun token token' paired => ?_
  rw [← pairing.kind_eq paired]
  cases BinaryOp.ofKind? token.kind with
  | none => exact .pure alike
  | some op =>
    by_cases weak : op.leftPower < power
    · simp only [if_pos weak]
      exact .pure alike
    · simp only [if_neg weak]
      refine take_agree.bind fun _ _ _ => (agree.expression _).bind fun right right' alikeRight => ?_
      exact agree.operators power _ _ (binary_alike op alike alikeRight _ _)

theorem operand_succ : pairing.Keeps (pairing.Alike Expr.relocate) (operand (fuel + 1)) := by
  simp only [Parser.operand]
  refine current_agree.bind fun token token' paired => ?_
  rw [← pairing.kind_eq paired, ← describe_eq paired, ← pairing.value_eq paired]
  cases UnaryOp.ofKind? token.kind with
  | some op =>
    exact take_agree.bind fun _ _ _ => (agree.expression _).bind fun value value' alike =>
      .pure (unary_alike op alike _ _)
  | none =>
    have name : token.kind = .identifier → pairing.Alike Reference.relocate
        ⟨token.value, token.span⟩ ⟨token.value, token'.span⟩ := by
      intro named
      have alike := reference_alike paired (by rw [named]; decide)
      rwa [← pairing.value_eq paired] at alike
    dsimp only
    generalize token.kind = kind at name
    split
    · exact take_agree.bind fun _ _ _ => .pure rfl
    · exact take_agree.bind fun _ _ _ => .pure rfl
    · exact take_agree.bind fun _ _ _ => (agree.expression 0).bind fun value value' alike =>
        closeParen_agree.bind fun _ _ _ => .pure alike
    · refine take_agree.bind fun _ _ _ => .sees ?_ ?_
      · refine take_agree.bind fun _ _ _ => .sees ?_ ?_
        · exact closeParen_agree.bind fun _ _ _ => .pure (call_alike (name rfl) .nil _ _)
        · exact agree.list.bind fun _ _ alike =>
            closeParen_agree.bind fun _ _ _ => .pure (call_alike (name rfl) alike _ _)
      · exact (agree.indices _ _).bind fun _ _ alike => .pure (lval_alike (name rfl) alike _ _)
    · exact fail_agree paired .unexpected

theorem indexList_succ (stop stop' : Span) :
    pairing.Agree (fun found found' => pairing.AlikeAll Expr.relocate found.1 found'.1)
      (indexList (fuel + 1) stop) (indexList (fuel + 1) stop') := by
  simp only [Parser.indexList]
  refine .sees ?_ (.pure .nil)
  refine take_agree.bind fun _ _ _ => (agree.expression 0).bind fun index index' alike => ?_
  exact closeBracket_agree.bind fun stop stop' _ => (agree.indices stop stop').bind fun more more' alikes =>
    .pure (.cons alike alikes)

end

theorem expressions_agree (pairing : Pairing) (fuel : Nat) : pairing.ExpressionsAgree fuel := by
  induction fuel with
  | zero =>
    constructor
    · exact fun _ => .exhausted
    · exact fun _ _ _ _ => .exhausted
    · exact .exhausted
    · exact .exhausted
    · exact fun _ _ => .exhausted
  | succ _ ih =>
    constructor
    · exact expression_succ ih
    · exact fun power _ _ alike => operators_succ ih power alike
    · exact operand_succ ih
    · exact (ih.expression 0).separated ih.list
    · exact indexList_succ ih

end Expressions

/-! ## Declarations -/

theorem initVals_agree (pairing : Pairing) (fuel : Nat) :
    pairing.Keeps (pairing.Alike InitVal.relocate) (initVal fuel) ∧
      pairing.Keeps (pairing.AlikeAll InitVal.relocate) (initValList fuel) := by
  have listed : ∀ {elements elements' : List InitVal} (span span' : Span),
      pairing.AlikeAll InitVal.relocate elements elements' →
        pairing.Alike InitVal.relocate (.list elements span) (.list elements' span') := by
    intro elements elements' span span' alikes
    unfold Alike AlikeAll at *
    simp only [InitVal.relocate, InitVal.relocateAll_eq, alikes]
  have plain : ∀ {value value' : Expr}, pairing.Alike Expr.relocate value value' →
      pairing.Alike InitVal.relocate (.expr value) (.expr value') := by
    intro value value' alike
    unfold Alike at *
    rw [InitVal.relocate, InitVal.relocate, alike]
  induction fuel with
  | zero => exact ⟨.exhausted, .exhausted⟩
  | succ fuel ih =>
    obtain ⟨initVal, initValList⟩ := ih
    refine ⟨?_, initVal.separated initValList⟩
    simp only [Parser.initVal]
    refine .sees ?_ ?_
    · refine take_agree.bind fun _ _ _ => .sees ?_ ?_
      · exact closeBrace_agree.bind fun _ _ _ => .pure (listed _ _ .nil)
      · exact initValList.bind fun _ _ alikes => closeBrace_agree.bind fun _ _ _ => .pure (listed _ _ alikes)
    · exact ((expressions_agree pairing fuel).expression 0).bind fun _ _ alike => .pure (plain alike)

theorem varDef_agree (pairing : Pairing) (fuel : Nat) :
    pairing.Keeps (pairing.Alike VarDef.relocate) (varDef fuel) := by
  simp only [varDef]
  refine (expect_agree _ _).bind ?_
  rintro name name' ⟨paired, named⟩
  have span := pairing.span_eq paired (by rw [named]; decide)
  refine ((expressions_agree pairing fuel).indices _ _).bind fun dims dims' alikes => .sees ?_ (.pure ?_)
  · refine take_agree.bind fun _ _ _ => (initVals_agree pairing fuel).1.bind fun init init' alike => .pure ?_
    unfold Alike AlikeAll at *
    simp only [VarDef.relocate, pairing.value_eq paired, alikes, span, Option.map_some, alike]
  · unfold Alike AlikeAll at *
    simp only [VarDef.relocate, pairing.value_eq paired, alikes, span, Option.map_none]

theorem varDefList_agree (pairing : Pairing) (fuel : Nat) :
    pairing.Keeps (pairing.AlikeAll VarDef.relocate) (varDefList fuel) := by
  induction fuel with
  | zero => exact .exhausted
  | succ fuel ih => exact (varDef_agree pairing fuel).separated ih

theorem baseType_agree : pairing.Keeps (fun found found' => found.1 = found'.1) baseType := by
  refine current_agree.bind fun token token' paired => ?_
  rw [← pairing.kind_eq paired, ← describe_eq paired]
  cases BaseType.ofKind? token.kind with
  | some => exact take_agree.bind fun _ _ _ => .pure rfl
  | none => exact fail_agree paired (.expected _)

theorem decl_agree (pairing : Pairing) (fuel : Nat) : pairing.Keeps (pairing.Alike Decl.relocate) (decl fuel) := by
  have rest : ∀ (isConst : Bool) (start start' : Token),
      pairing.Agree (pairing.Alike Decl.relocate)
        (baseType >>= fun found => varDefList fuel >>= fun defs => semicolon >>= fun stop =>
          Pure.pure { isConst, baseType := found.1, defs, span := start.span.through stop })
        (baseType >>= fun found => varDefList fuel >>= fun defs => semicolon >>= fun stop =>
          Pure.pure { isConst, baseType := found.1, defs, span := start'.span.through stop }) := by
    intro isConst start start'
    refine baseType_agree.bind fun found found' types => ?_
    refine (varDefList_agree pairing fuel).bind fun defs defs' alikes => ?_
    refine semicolon_agree.bind fun _ _ _ => .pure ?_
    unfold Alike AlikeAll at *
    simp only [Decl.relocate, types, alikes]
  simp only [decl]
  refine current_agree.bind fun start start' _ => (sees_agree _).bind ?_
  rintro isConst _ rfl
  cases isConst with
  | true => exact take_agree.bind fun _ _ _ => rest true start start'
  | false => exact rest false start start'

/-! ## Statements -/

section Statements

theorem exists_lval_of_alike {reference : Reference} {indices : List Expr} {span : Span} {expr : Expr}
    (alike : pairing.Alike Expr.relocate (.lval reference indices span) expr) :
    ∃ reference' indices' span', expr = .lval reference' indices' span' ∧
      pairing.Alike Reference.relocate reference reference' ∧ pairing.AlikeAll Expr.relocate indices indices' := by
  unfold Alike AlikeAll at *
  cases expr with
  | lval reference' indices' span' =>
    simp only [Expr.relocate, Expr.relocateAll_eq, Expr.lval.injEq, and_true] at alike
    exact ⟨reference', indices', span', rfl, alike⟩
  | _ => simp only [Expr.relocate, reduceCtorEq] at alike

theorem simpleStmt_agree (pairing : Pairing) (fuel : Nat) :
    pairing.Keeps (pairing.Alike Stmt.relocate) (simpleStmt fuel) := by
  simp only [simpleStmt]
  refine ((expressions_agree pairing fuel).expression 0).bind fun left left' alike => .sees ?_ ?_
  · refine take_agree.bind fun sign sign' paired => ?_
    cases left with
    | lval =>
      obtain ⟨_, _, _, rfl, references, alikes⟩ := exists_lval_of_alike alike
      refine ((expressions_agree pairing fuel).expression 0).bind fun value value' alikeValue => ?_
      refine semicolon_agree.bind fun _ _ _ => .pure ?_
      unfold Alike AlikeAll at *
      simp only [Stmt.relocate, Expr.relocateAll_eq, references, alikes, alikeValue]
    | _ =>
      cases left' with
      | lval => unfold Alike at alike; simp only [Expr.relocate, reduceCtorEq] at alike
      | _ => exact fail_agree paired .badTarget
  · refine semicolon_agree.bind fun _ _ _ => .pure ?_
    unfold Alike at *
    simp only [Stmt.relocate, Option.map_some, alike]

/-- What is said of all statements that a given fuel can read. -/
structure StatementsAgree (pairing : Pairing) (fuel : Nat) : Prop where
  stmt : pairing.Keeps (pairing.Alike Stmt.relocate) (stmt fuel)
  block : pairing.Keeps (fun found found' => pairing.AlikeAll BlockItem.relocate found.1 found'.1)
    (block fuel)
  blockItems : pairing.Keeps (pairing.AlikeAll BlockItem.relocate) (blockItems fuel)
  blockItem : pairing.Keeps (pairing.Alike BlockItem.relocate) (blockItem fuel)

variable {fuel : Nat}

theorem condition_agree {α : Type} {same : α → α → Prop} {next next' : Expr → Step α}
    (blames : ∀ token, Blames token (.missingBracket '(' keyword))
    (body : ∀ condition condition', pairing.Alike Expr.relocate condition condition' →
      pairing.Agree same (next condition) (next' condition')) :
    pairing.Agree same
      (take >>= fun _ => openParen keyword >>= fun _ => expression fuel 0 >>= fun condition =>
        closeParen >>= fun _ => next condition)
      (take >>= fun _ => openParen keyword >>= fun _ => expression fuel 0 >>= fun condition =>
        closeParen >>= fun _ => next' condition) := by
  refine take_agree.bind fun _ _ _ => (openParen_agree blames).bind fun _ _ _ => ?_
  refine ((expressions_agree pairing fuel).expression 0).bind fun condition condition' alike => ?_
  exact closeParen_agree.bind fun _ _ _ => body condition condition' alike

section

variable (agree : pairing.StatementsAgree fuel)
include agree

theorem stmt_succ : pairing.Keeps (pairing.Alike Stmt.relocate) (stmt (fuel + 1)) := by
  simp only [Parser.stmt]
  refine current_agree.bind fun token token' paired => ?_
  rw [← pairing.kind_eq paired]
  split
  · refine agree.block.bind fun found found' alikes => .pure ?_
    unfold Alike AlikeAll at *
    simp only [Stmt.relocate, BlockItem.relocateAll_eq, alikes]
  · refine condition_agree (fun _ => .branchParen) fun condition condition' alike => ?_
    refine agree.stmt.bind fun thenPart thenPart' alikeThen => .sees ?_ (.pure ?_)
    · refine take_agree.bind fun _ _ _ => agree.stmt.bind fun elsePart elsePart' alikeElse => .pure ?_
      unfold Alike at *
      rw [Stmt.relocate, Stmt.relocate, alike, alikeThen, alikeElse]
    · unfold Alike at *
      rw [Stmt.relocate, Stmt.relocate, alike, alikeThen]
  · refine condition_agree (fun _ => .loopParen) fun condition condition' alike => ?_
    refine agree.stmt.bind fun body body' alikeBody => .pure ?_
    unfold Alike at *
    rw [Stmt.relocate, Stmt.relocate, alike, alikeBody]
  · exact take_agree.bind fun _ _ _ => semicolon_agree.bind fun _ _ _ => .pure rfl
  · exact take_agree.bind fun _ _ _ => semicolon_agree.bind fun _ _ _ => .pure rfl
  · refine take_agree.bind fun _ _ _ => .sees ?_ ?_
    · exact semicolon_agree.bind fun _ _ _ => .pure rfl
    · have given : pairing.Agree (fun value value' => value.map (Expr.relocate (.pinned pairing.left)) =
          value'.map (Expr.relocate (.pinned pairing.right))) (some <$> expression fuel 0) (some <$> expression fuel 0) :=
        ((expressions_agree pairing fuel).expression 0).bind fun _ _ alike => .pure (congrArg some alike)
      refine given.bind fun value value' alike => semicolon_agree.bind fun _ _ _ => .pure ?_
      unfold Alike
      rw [Stmt.relocate, Stmt.relocate, alike]
  · exact take_agree.bind fun _ _ _ => .pure rfl
  · exact simpleStmt_agree pairing fuel

theorem block_succ : pairing.Keeps (fun found found' => pairing.AlikeAll BlockItem.relocate found.1 found'.1)
      (block (fuel + 1)) := by
  simp only [Parser.block]
  refine (expect_agree _ _).bind fun _ _ _ => agree.blockItems.bind fun items items' alikes => ?_
  exact closeBrace_agree.bind fun _ _ _ => .pure alikes

theorem blockItems_succ : pairing.Keeps (pairing.AlikeAll BlockItem.relocate) (blockItems (fuel + 1)) := by
  simp only [Parser.blockItems]
  refine current_agree.bind fun token token' paired => ?_
  rw [← pairing.kind_eq paired]
  by_cases ends : token.kind = .rightBrace ∨ token.kind = .endOfInput
  · simp only [if_pos ends]
    exact .pure .nil
  · simp only [if_neg ends]
    refine agree.blockItem.attempt.bind fun found found' alike => ?_
    cases alike with
    | none => exact (skipItem_agree false).bind fun _ _ _ => agree.blockItems
    | some alike => exact agree.blockItems.bind fun _ _ alikes => .pure (.cons alike alikes)

theorem blockItem_succ : pairing.Keeps (pairing.Alike BlockItem.relocate) (blockItem (fuel + 1)) := by
  have declared : pairing.Keeps (pairing.Alike BlockItem.relocate)
      (decl fuel >>= fun declaration => Pure.pure (.decl declaration)) :=
    (decl_agree pairing fuel).bind fun _ _ alike => .pure (congrArg BlockItem.decl alike)
  simp only [Parser.blockItem]
  refine current_agree.bind fun token token' paired => ?_
  rw [← pairing.kind_eq paired]
  split
  · exact declared
  · exact declared
  · exact declared
  · exact agree.stmt.bind fun _ _ alike => .pure (congrArg BlockItem.stmt alike)

end

theorem statements_agree (pairing : Pairing) (fuel : Nat) : pairing.StatementsAgree fuel := by
  induction fuel with
  | zero => exact ⟨.exhausted, .exhausted, .exhausted, .exhausted⟩
  | succ _ ih => exact ⟨stmt_succ ih, block_succ ih, blockItems_succ ih, blockItem_succ ih⟩

end Statements

/-! ## Functions and programs -/

section

variable (pairing : Pairing) (fuel : Nat)

theorem param_agree : pairing.Keeps (pairing.Alike Param.relocate) (param fuel) := by
  simp only [param]
  refine baseType_agree.bind fun found found' types => (expect_agree _ _).bind ?_
  rintro name name' ⟨paired, -⟩
  refine .sees ?_ (.pure ?_)
  · refine take_agree.bind fun _ _ _ => closeBracket_agree.bind fun stop stop' _ => ?_
    refine ((expressions_agree pairing fuel).indices stop stop').bind fun dims dims' alikes => .pure ?_
    unfold Alike AlikeAll at *
    simp only [Param.relocate, types, pairing.value_eq paired, alikes]
  · unfold Alike
    simp only [Param.relocate, types, pairing.value_eq paired, map_nil]

theorem paramList_agree : pairing.Keeps (pairing.AlikeAll Param.relocate) (paramList fuel) := by
  induction fuel with
  | zero => exact .exhausted
  | succ fuel ih => exact (param_agree pairing fuel).separated ih

theorem funcDef_agree (type : ReturnType) : pairing.Keeps (pairing.Alike FuncDef.relocate) (funcDef fuel type) := by
  simp only [funcDef]
  refine take_agree.bind fun start start' _ => (expect_agree _ _).bind ?_
  rintro name name' ⟨paired, -⟩
  have body : ∀ {params params' : List Param}, pairing.AlikeAll Param.relocate params params' →
      pairing.Agree (pairing.Alike FuncDef.relocate)
        (closeParen >>= fun _ => block fuel >>= fun found => Pure.pure
          { returnType := type, name := name.value, params, body := found.1, bodySpan := found.2
            span := start.span.through found.2, nameSpan := name.span, typeSpan := start.span })
        (closeParen >>= fun _ => block fuel >>= fun found => Pure.pure
          { returnType := type, name := name'.value, params := params', body := found.1, bodySpan := found.2
            span := start'.span.through found.2, nameSpan := name'.span, typeSpan := start'.span }) := by
    intro params params' alikes
    refine closeParen_agree.bind fun _ _ _ => ?_
    refine (statements_agree pairing fuel).block.bind fun found found' alikesBody => .pure ?_
    unfold Alike AlikeAll at *
    simp only [FuncDef.relocate, pairing.value_eq paired, alikes, alikesBody]
  refine (expect_agree _ _).bind fun _ _ _ => .sees (body .nil) ?_
  exact (paramList_agree pairing fuel).bind fun _ _ alikes => body alikes

theorem item_agree : pairing.Keeps (pairing.Alike Item.relocate) (item fuel) := by
  have declared : pairing.Keeps (pairing.Alike Item.relocate)
      (decl fuel >>= fun declaration => Pure.pure (.decl declaration)) :=
    (decl_agree pairing fuel).bind fun _ _ alike => .pure (congrArg Item.decl alike)
  simp only [item]
  refine current_agree.bind fun token token' paired => ?_
  rw [← pairing.kind_eq paired, ← describe_eq paired]
  by_cases isConst : token.kind = .constKeyword
  · simp only [if_pos isConst]
    exact declared
  simp only [if_neg isConst]
  cases ReturnType.ofKind? token.kind with
  | none => exact fail_agree paired (.expected _)
  | some type =>
    refine (kindAhead_agree 1).bind ?_
    rintro first _ rfl
    refine (kindAhead_agree 2).bind ?_
    rintro second _ rfl
    by_cases isFunction : first = .identifier ∧ second = .leftParen
    · simp only [if_pos isFunction]
      exact (funcDef_agree pairing fuel type).bind fun _ _ alike => .pure (congrArg Item.func alike)
    · simp only [if_neg isFunction]
      by_cases isVoid : type = .void
      · simp only [if_pos isVoid]
        exact fail_agree paired .voidVariable
      · simp only [if_neg isVoid]
        exact declared

theorem items_agree : pairing.Keeps (pairing.AlikeAll Item.relocate) (items fuel) := by
  induction fuel with
  | zero => exact .exhausted
  | succ fuel ih =>
    refine .sees (.pure .nil) ((item_agree pairing fuel).attempt.bind fun found found' alike => ?_)
    cases alike with
    | none => exact (skipItem_agree true).bind fun _ _ _ => ih
    | some alike => exact ih.bind fun _ _ alikes => .pure (.cons alike alikes)

end

/-- Two results of reading a program that correspond. -/
inductive Reads (pairing : Pairing) :
    Except (List Report) CompUnit → Except (List Report) CompUnit → Prop where
  | ok {unit unit' : CompUnit} (units : pairing.Alike CompUnit.relocate unit unit') :
      Reads pairing (.ok unit) (.ok unit')
  | error {list list' : List Report} (lists : List.Forall₂ pairing.reports list list') :
      Reads pairing (.error list) (.error list')

theorem ofTokens_reads {tokens' : List Token} (paired : List.Forall₂ pairing.tokens tokens tokens')
    (file file' : String) : pairing.Reads (CompUnit.ofTokens file tokens) (CompUnit.ofTokens file' tokens') := by
  cases paired with
  | nil => exact .error .nil
  | @cons first first' rest rest' paired pairedRest =>
    have start : pairing.Pairs ⟨none, first, rest, []⟩ ⟨none, first', rest', []⟩ := ⟨.none, paired, pairedRest, .nil⟩
    have sizes : (first' :: rest').length = (first :: rest).length := by
      rw [length_cons, length_cons, pairedRest.length_eq]
    have ends := items_agree pairing (fuelFor (first :: rest).length) _ _ start
    simp only [CompUnit.ofTokens]
    rw [sizes]
    generalize items _ ⟨none, first, rest, []⟩ = outcome at ends
    generalize items _ ⟨none, first', rest', []⟩ = outcome' at ends
    cases ends with
    | exhausted => exact .error .nil
    | reject states => exact .error states.reports
    | @accept list list' state state' alikes states =>
      have reports := states.reports
      cases left : state.reports with
      | nil =>
        rw [left] at reports
        simp only [left, List.forall₂_nil_left_iff.mp reports]
        refine .ok ?_
        unfold Alike AlikeAll at *
        simp only [CompUnit.relocate, alikes]
      | cons =>
        rw [left] at reports
        obtain ⟨_, _, _, _, right⟩ := List.forall₂_cons_left_iff.mp reports
        simp only [left, right]
        rw [right] at reports
        exact .error reports

/-- The tokens of a list, each paired with itself. -/
def self (tokens : List Token) : Pairing where
  left := id
  right := id
  tokens token token' := token = token' ∧ token ∈ tokens
  reports report report' := report = report' ∧ ∃ token ∈ tokens, report.span = token.span ∧ Blames token report.problem
  kind_eq := by
    rintro token _ ⟨rfl, -⟩
    rfl
  value_eq := by
    rintro token _ ⟨rfl, -⟩
    rfl
  span_eq := by
    rintro token _ ⟨rfl, -⟩ -
    rfl
  blamed := by
    rintro token _ problem ⟨rfl, member⟩ blames
    exact ⟨rfl, token, member, rfl, blames⟩

/-- Tokens with the same kind and value, where the places of words may differ. -/
def words (left right : Span → Span) : Pairing where
  left
  right
  tokens token token' := token.kind = token'.kind ∧ token.value = token'.value ∧
    (token.kind ≠ .endOfInput → left token.span = right token'.span)
  reports report report' := report.problem = report'.problem
  kind_eq paired := paired.1
  value_eq paired := paired.2.1
  span_eq paired := paired.2.2
  blamed _ _ := rfl

end Pairing

end SysYTools.Parser

namespace SysYTools

open SysYTools.Parser

theorem CompUnit.blames_of_ofTokens {file : String} {tokens : List Token} {reports : List Report}
    (failed : CompUnit.ofTokens file tokens = .error reports) {report : Report} (member : report ∈ reports) :
    ∃ token ∈ tokens, report.span = token.span ∧ Blames token report.problem := by
  have paired : List.Forall₂ (Pairing.self tokens).tokens tokens tokens :=
    List.forall₂_same.mpr fun token isToken => ⟨rfl, isToken⟩
  have reads := Pairing.ofTokens_reads paired file file
  rw [failed] at reads
  cases reads with
  | error lists => exact (List.forall₂_same.mp lists report member).2

end SysYTools
