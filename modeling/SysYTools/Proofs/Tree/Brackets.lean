import SysYTools.Proofs.Tree.Rewording

/-!
Brackets in derivations. The brackets in the words of every part of a program pair up. In an expression or an
initializer no equals sign stands among them, and commas stand only inside brackets.
-/

namespace SysYTools

open List Lexis

variable {kind : TokenKind} {left rest right words : List Word} {token : Token} {tokens : List Token}

/-- A bracket and its partner. -/
inductive Encloses : TokenKind → TokenKind → Prop where
  | paren : Encloses .leftParen .rightParen
  | bracket : Encloses .leftBracket .rightBracket
  | brace : Encloses .leftBrace .rightBrace

def TokenKind.isBracket : TokenKind → Bool
  | .leftParen | .rightParen | .leftBracket | .rightBracket | .leftBrace | .rightBrace => true
  | _ => false

/-- Words that are no brackets, no commas and no equals signs. -/
def TokenKind.isPlain : TokenKind → Bool
  | .leftParen | .rightParen | .leftBracket | .rightBracket | .leftBrace | .rightBrace | .comma | .assign => false
  | _ => true

/-- Words in which brackets pair up. -/
inductive Balanced : List Word → Prop where
  | nil : Balanced []
  | other {kind : TokenKind} {value : Text} {rest : List Word} :
      kind.isBracket = false → Balanced rest → Balanced ((kind, value) :: rest)
  | group {opening closing : TokenKind} {opened closed : Text} {inside rest : List Word} :
      Encloses opening closing → Balanced inside → Balanced rest →
      Balanced ((opening, opened) :: inside ++ (closing, closed) :: rest)

/-- Words in which brackets pair up. Outside brackets there are commas only where they are allowed. -/
inductive Nest : Bool → List Word → Prop where
  | nil {commas : Bool} : Nest commas []
  | plain {commas : Bool} {kind : TokenKind} {value : Text} {rest : List Word} :
      kind.isPlain = true → Nest commas rest → Nest commas ((kind, value) :: rest)
  | comma {value : Text} {rest : List Word} : Nest true rest → Nest true ((.comma, value) :: rest)
  | group {commas : Bool} {opening closing : TokenKind} {opened closed : Text} {inside rest : List Word} :
      Encloses opening closing → Nest true inside → Nest commas rest →
      Nest commas ((opening, opened) :: inside ++ (closing, closed) :: rest)

namespace Balanced

theorem append (first : Balanced left) (second : Balanced right) : Balanced (left ++ right) := by
  induction first with
  | nil => exact second
  | other isOther _ ih => exact .other isOther ih
  | group encloses inside _ _ ih =>
    rw [append_assoc, cons_append, cons_append]
    exact .group encloses inside ih

theorem word (found : token.kind = kind) (isOther : kind.isBracket = false) (after : Balanced rest) :
    Balanced (wordOf token :: rest) :=
  .other (by rwa [found]) after

theorem enclosed {opening closing : Token} {open' close' : TokenKind} {inside rest : List Word}
    (opens : opening.kind = open') (closes : closing.kind = close') (encloses : Encloses open' close')
    (balanced : Balanced inside) (after : Balanced rest) :
    Balanced (wordOf opening :: inside ++ wordOf closing :: rest) := by
  subst opens closes
  exact .group encloses balanced after

end Balanced

namespace Nest

variable {commas : Bool}

theorem balanced (nest : Nest commas words) : Balanced words := by
  induction nest with
  | nil => exact .nil
  | @plain _ kind _ _ isPlain _ ih => exact .other (by cases kind <;> first | rfl | cases isPlain) ih
  | comma _ ih => exact .other rfl ih
  | group encloses _ _ insideHypothesis ih => exact .group encloses insideHypothesis ih

theorem append (first : Nest commas left) (second : Nest commas right) : Nest commas (left ++ right) := by
  induction first with
  | nil => exact second
  | plain isPlain _ ih => exact .plain isPlain (ih second)
  | comma _ ih => exact .comma (ih second)
  | group encloses inside _ _ ih =>
    rw [append_assoc, cons_append, cons_append]
    exact .group encloses inside (ih second)

theorem allow (nest : Nest commas words) : Nest true words := by
  induction nest with
  | nil => exact .nil
  | plain isPlain _ ih => exact .plain isPlain ih
  | comma _ ih => exact .comma ih
  | group encloses inside _ _ ih => exact .group encloses inside ih

theorem single (isPlain : token.kind.isPlain = true) : Nest commas [wordOf token] := .plain isPlain .nil

theorem enclosed {opening closing : Token} {inside rest : List Word}
    (encloses : Encloses opening.kind closing.kind) (nest : Nest true inside) (after : Nest commas rest) :
    Nest commas (wordOf opening :: inside ++ wordOf closing :: rest) :=
  .group encloses nest after

end Nest

namespace Grammar

theorem isPlain_of_binaryOp {op : BinaryOp} (found : BinaryOp.ofKind? kind = some op) : kind.isPlain = true := by
  cases kind <;> first | rfl | cases found

theorem isPlain_of_unaryOp {op : UnaryOp} (found : UnaryOp.ofKind? kind = some op) : kind.isPlain = true := by
  cases kind <;> first | rfl | cases found

theorem ExprAt.nest {level : Nat} {expr : Expr} (derived : ExprAt level tokens expr) :
    Nest false (tokens.map wordOf) := by
  induction derived using ExprAt.rec
    (motive_2 := fun _ tokens _ _ _ => Nest false (tokens.map wordOf))
    (motive_3 := fun tokens _ _ => Nest true (tokens.map wordOf)) with
  | tighter _ _ ih => exact ih
  | binary _ found _ leftHypothesis rightHypothesis =>
    rw [map_append, map_cons]
    exact leftHypothesis.append (.plain (isPlain_of_binaryOp found) rightHypothesis)
  | unary found _ ih => exact .plain (isPlain_of_unaryOp found) ih
  | intLit isLiteral => exact .single (by rw [isLiteral]; rfl)
  | floatLit isLiteral => exact .single (by rw [isLiteral]; rfl)
  | lval named _ ih => exact .plain (by rw [named]; rfl) ih
  | callNone named opens closes =>
    refine .plain (by rw [named]; rfl) ?_
    exact .enclosed (by rw [opens, closes]; exact .paren) .nil .nil
  | call named opens _ closes ih =>
    simp only [map_append, map_cons, map_nil, cons_append]
    refine .plain (by rw [named]; rfl) ?_
    exact .enclosed (by rw [opens, closes]; exact .paren) ih .nil
  | paren opens _ closes ih =>
    rw [map_append]
    exact .enclosed (by rw [opens, closes]; exact .paren) ih.allow .nil
  | nil => exact .nil
  | cons opens _ closes _ ih restHypothesis =>
    rw [map_append]
    exact .enclosed (by rw [opens, closes]; exact .bracket) ih.allow restHypothesis
  | single _ ih => exact ih.allow
  | more _ separates _ ih restHypothesis =>
    rw [map_append, map_cons]
    refine ih.allow.append ?_
    rw [wordOf, separates]
    exact .comma restHypothesis

theorem Indices.nest {start stop : Span} {tokens : List Token} {indices : List Expr}
    (derived : Indices start tokens indices stop) : Nest false (tokens.map wordOf) := by
  induction derived using Indices.rec (motive_1 := fun _ _ _ _ => True)
    (motive_3 := fun _ _ _ => True) with
  | nil => exact .nil
  | cons opens inside closes _ _ ih =>
    rw [map_append]
    exact .enclosed (by rw [opens, closes]; exact .bracket) inside.nest.allow ih
  | _ => trivial

theorem Initializer.nest {tokens : List Token} {init : InitVal} (derived : Initializer tokens init) :
    Nest false (tokens.map wordOf) := by
  induction derived using Initializer.rec
    (motive_2 := fun tokens _ _ => Nest true (tokens.map wordOf)) with
  | expr inside => exact inside.nest
  | empty opens closes => exact .enclosed (by rw [opens, closes]; exact .brace) .nil .nil
  | list opens _ closes ih =>
    rw [map_append]
    exact .enclosed (by rw [opens, closes]; exact .brace) ih .nil
  | single _ ih => exact ih.allow
  | more _ separates _ ih restHypothesis =>
    rw [map_append, map_cons]
    refine ih.allow.append ?_
    rw [wordOf, separates]
    exact .comma restHypothesis

theorem InitializerList.nest {tokens : List Token} {elements : List InitVal}
    (derived : InitializerList tokens elements) : Nest true (tokens.map wordOf) := by
  induction derived using InitializerList.rec (motive_1 := fun _ _ _ => True) with
  | single derived => exact derived.nest.allow
  | more derived separates _ _ ih =>
    rw [map_append, map_cons]
    refine derived.nest.allow.append ?_
    rw [wordOf, separates]
    exact .comma ih
  | _ => trivial

theorem Separated.balanced {α : Type} {form : List Token → α → Prop} {parts : List α}
    (derived : Separated form tokens parts)
    (each : ∀ {tokens part}, form tokens part → Balanced (tokens.map wordOf)) : Balanced (tokens.map wordOf) := by
  induction derived with
  | single first => exact each first
  | more first separates _ ih =>
    rw [map_append, map_cons]
    exact (each first).append (.word separates rfl ih)

theorem Definition.balanced {tokens : List Token} {var : VarDef} (derived : Definition tokens var) :
    Balanced (tokens.map wordOf) := by
  cases derived with
  | plain named sizes => exact .word named rfl sizes.nest.balanced
  | initialized named sizes assigns init =>
    rw [map_append]
    exact (Balanced.word named rfl sizes.nest.balanced).append (.word assigns rfl init.nest.balanced)

theorem isBracket_of_baseType {type : BaseType} (found : BaseType.ofKind? kind = some type) :
    kind.isBracket = false := by
  cases kind <;> first | rfl | cases found

theorem Declaring.balanced {tokens : List Token} {decl : Decl} (derived : Declaring tokens decl) :
    Balanced (tokens.map wordOf) := by
  cases derived with
  | plain typed defs stops =>
    rw [map_append]
    exact (Balanced.word rfl (isBracket_of_baseType typed) (defs.balanced Definition.balanced)).append
      (.word stops rfl .nil)
  | const marked typed defs stops =>
    rw [map_append]
    exact (Balanced.word marked rfl (.word rfl (isBracket_of_baseType typed)
      (defs.balanced Definition.balanced))).append (.word stops rfl .nil)

theorem balanced_head {keyword opening closing : Token} {condition : Expr} (found : keyword.kind = kind)
    (isOther : kind.isBracket = false) (opens : opening.kind = .leftParen) (inside : ExprAt 1 tokens condition)
    (closes : closing.kind = .rightParen) (after : Balanced rest) :
    Balanced (wordOf keyword :: wordOf opening :: tokens.map wordOf ++ wordOf closing :: rest) :=
  .word found isOther (.enclosed opens closes .paren inside.nest.balanced after)

theorem Items.balanced {tokens : List Token} {items : List BlockItem} (derived : Items tokens items) :
    Balanced (tokens.map wordOf) := by
  induction derived using Items.rec (motive_1 := fun tokens _ _ => Balanced (tokens.map wordOf)) with
  | assign target assigns value stops =>
    rw [map_append, map_append]
    exact (target.exprAt.nest.balanced.append (.word assigns rfl value.nest.balanced)).append (.word stops rfl .nil)
  | expr inside stops =>
    rw [map_append]
    exact inside.nest.balanced.append (.word stops rfl .nil)
  | empty stops => exact .word stops rfl .nil
  | block opens _ closes ih =>
    rw [map_append]
    exact .enclosed opens closes .brace ih .nil
  | branch found opens inside closes _ ih =>
    rw [map_append]
    exact balanced_head found rfl opens inside closes ih
  | branchElse found opens inside closes _ otherwise _ thenHypothesis elseHypothesis =>
    rw [map_append, map_append]
    exact (balanced_head found rfl opens inside closes thenHypothesis).append (.word otherwise rfl elseHypothesis)
  | loop found opens inside closes _ ih =>
    rw [map_append]
    exact balanced_head found rfl opens inside closes ih
  | breakLoop found stops => exact .word found rfl (.word stops rfl .nil)
  | continueLoop found stops => exact .word found rfl (.word stops rfl .nil)
  | giveNothing found stops => exact .word found rfl (.word stops rfl .nil)
  | giveBack found inside stops =>
    rw [map_append]
    exact (Balanced.word found rfl inside.nest.balanced).append (.word stops rfl .nil)
  | nil => exact .nil
  | decl declares _ ih =>
    rw [map_append]
    exact declares.balanced.append ih
  | stmt _ _ statementHypothesis ih =>
    rw [map_append]
    exact statementHypothesis.append ih

end Grammar

end SysYTools
