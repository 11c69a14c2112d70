import SysYTools.Proofs.Tree.Reading
import SysYTools.Proofs.Tree.Rewording

/-!
Expressions as they are written with the parentheses that the grouping of operators asks for, and no others. The
parser reads such words back as the expression, whatever their places are. An expression that was printed belongs to
the layer of the grammar that its outermost operator has.
-/

namespace SysYTools

open List Lexis Grammar

variable {reference : Reference} {span : Span}

/-! ## Printing -/

/-- The kind of token that writes a unary operator. -/
def UnaryOp.kind : UnaryOp → TokenKind
  | .plus => .plus
  | .minus => .minus
  | .not => .bang

/-- The kind of token that writes a binary operator. -/
def BinaryOp.kind : BinaryOp → TokenKind
  | .or => .or
  | .and => .and
  | .equal => .equal
  | .notEqual => .notEqual
  | .less => .less
  | .greater => .greater
  | .lessEqual => .lessEqual
  | .greaterEqual => .greaterEqual
  | .add => .plus
  | .subtract => .minus
  | .multiply => .star
  | .divide => .slash
  | .remainder => .percent

theorem UnaryOp.ofKind?_kind (op : UnaryOp) : UnaryOp.ofKind? op.kind = some op := by
  cases op <;> rfl

theorem BinaryOp.ofKind?_kind (op : BinaryOp) : BinaryOp.ofKind? op.kind = some op := by
  cases op <;> rfl

/-- How tightly an expression holds together. Only binary operators let go of their operands. -/
def Expr.tightness : Expr → Nat
  | .binary _ op _ _ => op.level
  | _ => 7

/-- Words in parentheses where these are wanted. -/
def enclose (wanted : Bool) (words : List Word) : List Word :=
  if wanted then (.leftParen, ['(']) :: words ++ [(.rightParen, [')'])] else words

mutual

/-- The words of an expression. In parentheses are a left operand that is looser than its operator, a right
operand that is not tighter than it, and the operand of a unary operator if it is binary. -/
def Expr.print : Expr → List Word
  | .intLit value _ => [(.integerLiteral, value.toList)]
  | .floatLit value _ => [(.floatLiteral, value.toList)]
  | .lval reference indices _ => (.identifier, reference.name.toList) :: Expr.printIndices indices
  | .call reference arguments _ =>
    (.identifier, reference.name.toList) :: (.leftParen, ['(']) :: Expr.printList arguments ++ [(.rightParen, [')'])]
  | .unary op operand _ => (op.kind, op.symbol.toList) :: enclose (operand.tightness < 7) operand.print
  | .binary left op right _ =>
    enclose (left.tightness < op.level) left.print ++
      (op.kind, op.symbol.toList) :: enclose (right.tightness ≤ op.level) right.print

def Expr.printIndices : List Expr → List Word
  | [] => []
  | first :: rest => (.leftBracket, ['[']) :: first.print ++ (.rightBracket, [']']) :: Expr.printIndices rest

def Expr.printList : List Expr → List Word
  | [] => []
  | [last] => last.print
  | first :: second :: rest => first.print ++ (.comma, [',']) :: Expr.printList (second :: rest)

end

theorem Expr.tightness_le (expr : Expr) : expr.tightness ≤ 7 := by
  cases expr with
  | binary _ op => exact (Parser.level_le op).trans (by decide)
  | _ => exact le_rfl

theorem Expr.tightness_pos (expr : Expr) : 1 ≤ expr.tightness := by
  cases expr with
  | binary _ op => exact Parser.level_pos op
  | _ => exact Nat.succ_pos 6

/-! ## Printed words have derivations -/

/-- Words that are written for an expression have derivations in a layer, whatever their places are. -/
def Expr.DerivedAt (expr : Expr) (level : Nat) (words : List Word) : Prop :=
  ∀ tokens : List Token, tokens.map wordOf = words → ∃ expr', ExprAt level tokens expr' ∧ expr'.shape = expr.shape

theorem Expr.DerivedAt.enclose {expr : Expr} {words : List Word} {level : Nat} {wanted : Bool}
    (derived : expr.DerivedAt expr.tightness words) (needed : expr.tightness < level → wanted = true)
    (bound : level ≤ 7) : expr.DerivedAt level (enclose wanted words) := by
  intro tokens written
  cases wanted with
  | false =>
    obtain ⟨expr', inside, shape⟩ := derived tokens written
    have tight : level ≤ expr.tightness := by
      by_contra loose
      exact Bool.noConfusion (needed (Nat.lt_of_not_le loose))
    exact ⟨expr', inside.loosen tight expr.tightness_le, shape⟩
  | true =>
    obtain ⟨opening, inner, closing, rfl, isOpening, isInner, isClosing⟩ := exists_enclosed written
    obtain ⟨expr', inside, shape⟩ := derived inner isInner
    have paren : ExprAt 7 (opening :: inner ++ [closing]) expr' :=
      .paren (congrArg Prod.fst isOpening) (inside.loosen expr.tightness_pos expr.tightness_le)
        (congrArg Prod.fst isClosing)
    exact ⟨expr', paren.loosen bound le_rfl, shape⟩

theorem Expr.DerivedAt.loosest {expr : Expr} {words : List Word}
    (derived : expr.DerivedAt expr.tightness words) : expr.DerivedAt 1 words := by
  intro tokens written
  obtain ⟨expr', inside, shape⟩ := derived tokens written
  exact ⟨expr', inside.loosen expr.tightness_pos expr.tightness_le, shape⟩

private theorem derived_lval {indices : List Expr}
    (inside : ∀ start (tokens : List Token), tokens.map wordOf = Expr.printIndices indices →
      ∃ indices' stop, Indices start tokens indices' stop ∧ Expr.shapes indices' = Expr.shapes indices) :
    (Expr.lval reference indices span).DerivedAt 7 (Expr.lval reference indices span).print := by
  intro tokens written
  obtain ⟨name, more, rfl, isName, isMore⟩ := map_eq_cons_iff.mp written
  obtain ⟨_, _, derived, shape⟩ := inside name.span more isMore
  obtain ⟨named, same⟩ := Prod.mk.inj isName
  refine ⟨_, .lval named derived, ?_⟩
  rw [Expr.shape, Expr.shape, shape, Reference.shape, Reference.shape, String.toList_inj.mp same]

private theorem derived_call {arguments : List Expr}
    (inside : ∀ tokens : List Token, arguments ≠ [] → tokens.map wordOf = Expr.printList arguments →
      ∃ arguments', ExprList tokens arguments' ∧ Expr.shapes arguments' = Expr.shapes arguments) :
    (Expr.call reference arguments span).DerivedAt 7 (Expr.call reference arguments span).print := by
  intro tokens written
  obtain ⟨name, _, rfl, isName, isMore⟩ := map_eq_cons_iff.mp written
  obtain ⟨opening, inner, closing, rfl, isOpening, isInner, isClosing⟩ := exists_enclosed isMore
  obtain ⟨named, same⟩ := Prod.mk.inj isName
  have opens : opening.kind = .leftParen := congrArg Prod.fst isOpening
  have closes : closing.kind = .rightParen := congrArg Prod.fst isClosing
  have isReference : (Reference.mk name.value name.span).shape = reference.shape := by
    rw [Reference.shape, Reference.shape, String.toList_inj.mp same]
  cases arguments with
  | nil =>
    obtain rfl := map_eq_nil_iff.mp isInner
    refine ⟨_, .callNone named opens closes, ?_⟩
    rw [Expr.shape, Expr.shape, isReference]
  | cons first rest =>
    obtain ⟨_, derived, shape⟩ := inside inner (cons_ne_nil first rest) isInner
    refine ⟨_, .call named opens derived closes, ?_⟩
    rw [Expr.shape, Expr.shape, shape, isReference]

private theorem derived_unary {op : UnaryOp} {operand : Expr}
    (inside : operand.DerivedAt operand.tightness operand.print) :
    (Expr.unary op operand span).DerivedAt 7 (Expr.unary op operand span).print := by
  intro tokens written
  obtain ⟨mark, more, rfl, isMark, isMore⟩ := map_eq_cons_iff.mp written
  obtain ⟨_, derived, shape⟩ := inside.enclose (fun loose => decide_eq_true loose) le_rfl more isMore
  have found : UnaryOp.ofKind? mark.kind = some op :=
    (congrArg UnaryOp.ofKind? (congrArg Prod.fst isMark)).trans op.ofKind?_kind
  refine ⟨_, .unary found derived, ?_⟩
  rw [Expr.shape, Expr.shape, shape]

private theorem derived_binary {left right : Expr} {op : BinaryOp}
    (insideLeft : left.DerivedAt left.tightness left.print)
    (insideRight : right.DerivedAt right.tightness right.print) :
    (Expr.binary left op right span).DerivedAt op.level (Expr.binary left op right span).print := by
  intro tokens written
  have bound := Parser.level_le op
  obtain ⟨front, _, rfl, isFront, isBack⟩ := map_eq_append_iff.mp written
  obtain ⟨mark, more, rfl, isMark, isMore⟩ := map_eq_cons_iff.mp isBack
  obtain ⟨_, derivedLeft, leftShape⟩ :=
    insideLeft.enclose (fun loose => decide_eq_true loose) (bound.trans (by decide)) front isFront
  -- An operand of the same level may stand on the left without parentheses, but not on the right.
  have insideNext : right.DerivedAt (op.level + 1) (enclose (right.tightness ≤ op.level) right.print) :=
    insideRight.enclose (fun loose => decide_eq_true (Nat.le_of_lt_succ loose)) (Nat.succ_le_succ bound)
  obtain ⟨_, derivedRight, rightShape⟩ := insideNext more isMore
  have found : BinaryOp.ofKind? mark.kind = some op :=
    (congrArg BinaryOp.ofKind? (congrArg Prod.fst isMark)).trans op.ofKind?_kind
  refine ⟨_, .binary derivedLeft found derivedRight, ?_⟩
  rw [Expr.shape, Expr.shape, leftShape, rightShape]

mutual

theorem Expr.derivedAt_print (expr : Expr) : expr.DerivedAt expr.tightness expr.print := by
  cases expr with
  | intLit =>
    intro tokens written
    obtain ⟨token, rfl, isToken⟩ := map_eq_singleton_iff.mp written
    obtain ⟨isLiteral, same⟩ := Prod.mk.inj isToken
    refine ⟨_, .intLit isLiteral, ?_⟩
    rw [Expr.shape, Expr.shape, String.toList_inj.mp same]
  | floatLit =>
    intro tokens written
    obtain ⟨_, rfl, isToken⟩ := map_eq_singleton_iff.mp written
    obtain ⟨isLiteral, same⟩ := Prod.mk.inj isToken
    refine ⟨_, .floatLit isLiteral, ?_⟩
    rw [Expr.shape, Expr.shape, String.toList_inj.mp same]
  | lval _ indices => exact derived_lval (Expr.indices_print indices)
  | call _ arguments => exact derived_call (Expr.exprList_print arguments)
  | unary _ operand => exact derived_unary operand.derivedAt_print
  | binary left _ right => exact derived_binary left.derivedAt_print right.derivedAt_print

theorem Expr.indices_print (indices : List Expr) (start : Span) (tokens : List Token)
    (written : tokens.map wordOf = Expr.printIndices indices) :
    ∃ indices' stop, Indices start tokens indices' stop ∧ Expr.shapes indices' = Expr.shapes indices := by
  cases indices with
  | nil =>
    obtain rfl := map_eq_nil_iff.mp written
    exact ⟨[], start, .nil, rfl⟩
  | cons first rest =>
    obtain ⟨_, _, rfl, isFront, isBack⟩ := map_eq_append_iff.mp written
    obtain ⟨_, inner, rfl, isOpening, isInner⟩ := map_eq_cons_iff.mp isFront
    obtain ⟨closing, more, rfl, isClosing, isMore⟩ := map_eq_cons_iff.mp isBack
    obtain ⟨index', derived, shape⟩ := first.derivedAt_print.loosest inner isInner
    obtain ⟨indices', stop, further, shapes⟩ := Expr.indices_print rest closing.span more isMore
    refine ⟨index' :: indices', stop,
      .cons (congrArg Prod.fst isOpening) derived (congrArg Prod.fst isClosing) further, ?_⟩
    rw [Expr.shapes, Expr.shapes, shape, shapes]

theorem Expr.exprList_print (exprs : List Expr) (tokens : List Token) (some : exprs ≠ [])
    (written : tokens.map wordOf = Expr.printList exprs) :
    ∃ exprs', ExprList tokens exprs' ∧ Expr.shapes exprs' = Expr.shapes exprs := by
  match exprs with
  | [] => exact absurd rfl some
  | [last] =>
    obtain ⟨expr', derived, shape⟩ := last.derivedAt_print.loosest tokens written
    exact ⟨[expr'], .single derived, by simp only [Expr.shapes, shape]⟩
  | first :: second :: rest =>
    obtain ⟨front, _, rfl, isFront, isBack⟩ := map_eq_append_iff.mp written
    obtain ⟨_, more, rfl, isComma, isMore⟩ := map_eq_cons_iff.mp isBack
    obtain ⟨expr', derived, shape⟩ := first.derivedAt_print.loosest front isFront
    obtain ⟨exprs', further, shapes⟩ := Expr.exprList_print (second :: rest) more (cons_ne_nil second rest) isMore
    refine ⟨expr' :: exprs', .more derived (congrArg Prod.fst isComma) further, ?_⟩
    rw [Expr.shapes, Expr.shapes, shape, shapes]

end

/-! ## Reading what was printed -/

namespace Parser

/-- Reading inverts printing. The words of an expression, at any places, followed by a token that cannot go on
with an expression, are read as that expression up to its places. Nothing is reported, and the parser stops at
the token that follows. -/
theorem expression_reads_print (expr : Expr) {tokens : List Token} (written : tokens.map wordOf = expr.print)
    {state : State} {next : Token} {rest : List Token} (shown : state.tokens = tokens ++ next :: rest)
    (ends : next.kind ≠ .leftParen ∧ next.kind ≠ .leftBracket ∧ BinaryOp.ofKind? next.kind = none)
    {fuel : Nat} (adequate : fuelFor state.tokens.length ≤ fuel) :
    ∃ read after, expression fuel 0 state = .accept read after ∧ read.shape = expr.shape ∧
      after.reports = state.reports ∧ after.tokens = next :: rest := by
  obtain ⟨read, derived, shape⟩ := expr.derivedAt_print.loosest tokens written
  have enough : 4 * (tokens.length + rest.length) + 3 ≤ fuel := by
    rw [fuelFor, shown, length_append, length_cons] at adequate
    omega
  have follow := cons_ne_nil next rest
  exact ⟨read, state.past tokens, expression_reads derived ends enough state shown follow, shape,
    state.reports_past tokens, State.tokens_past shown follow⟩

/-- The product `(a - 1) * -f(b[2])`: its left operand is in parentheses, and the unary operator on its right
is not. -/
theorem expression_reads_print_product :
    ∃ read after, expression (fuelFor 15) 0
        ⟨none, ⟨.leftParen, "(", .nowhere⟩,
          [⟨.identifier, "a", .nowhere⟩, ⟨.minus, "-", .nowhere⟩, ⟨.integerLiteral, "1", .nowhere⟩,
            ⟨.rightParen, ")", .nowhere⟩, ⟨.star, "*", .nowhere⟩, ⟨.minus, "-", .nowhere⟩,
            ⟨.identifier, "f", .nowhere⟩, ⟨.leftParen, "(", .nowhere⟩, ⟨.identifier, "b", .nowhere⟩,
            ⟨.leftBracket, "[", .nowhere⟩, ⟨.integerLiteral, "2", .nowhere⟩, ⟨.rightBracket, "]", .nowhere⟩,
            ⟨.rightParen, ")", .nowhere⟩, ⟨.semicolon, ";", .nowhere⟩], []⟩ = .accept read after ∧
      read.shape = .binary
        (.binary (.lval ⟨"a", .nowhere⟩ [] .nowhere) .subtract (.intLit "1" .nowhere) .nowhere) .multiply
        (.unary .minus
          (.call ⟨"f", .nowhere⟩ [.lval ⟨"b", .nowhere⟩ [.intLit "2" .nowhere] .nowhere] .nowhere) .nowhere) .nowhere ∧
      after.reports = [] ∧ after.tokens = [⟨.semicolon, ";", .nowhere⟩] := by
  refine @expression_reads_print
    (.binary (.binary (.lval ⟨"a", .nowhere⟩ [] .nowhere) .subtract (.intLit "1" .nowhere) .nowhere) .multiply
      (.unary .minus
        (.call ⟨"f", .nowhere⟩ [.lval ⟨"b", .nowhere⟩ [.intLit "2" .nowhere] .nowhere] .nowhere)
        .nowhere) .nowhere)
    [⟨.leftParen, "(", .nowhere⟩, ⟨.identifier, "a", .nowhere⟩, ⟨.minus, "-", .nowhere⟩,
      ⟨.integerLiteral, "1", .nowhere⟩, ⟨.rightParen, ")", .nowhere⟩, ⟨.star, "*", .nowhere⟩,
      ⟨.minus, "-", .nowhere⟩, ⟨.identifier, "f", .nowhere⟩, ⟨.leftParen, "(", .nowhere⟩,
      ⟨.identifier, "b", .nowhere⟩, ⟨.leftBracket, "[", .nowhere⟩, ⟨.integerLiteral, "2", .nowhere⟩,
      ⟨.rightBracket, "]", .nowhere⟩, ⟨.rightParen, ")", .nowhere⟩] ?_ _ _ _ rfl (by decide) _ le_rfl
  decide +kernel

end Parser

end SysYTools
