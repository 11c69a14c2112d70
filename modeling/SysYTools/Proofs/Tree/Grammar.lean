import Mathlib
import SysYTools.Tree.Parser

/-!
The grammar of SysY as derivations. A derivation relates a list of tokens to the tree that it writes, with
all spans; parentheses leave no trace in the tree. The grammar does not say how a derivation is found, and
it is ambiguous in one point: an `else` may belong to any `if` before it that has none yet.
-/

namespace SysYTools.Grammar

variable {indices : List Expr} {level : Nat} {reference : Reference} {span : Span} {tokens : List Token}

/-! ## Expressions -/

mutual

/-- Expressions by layers. The layers 1 to 6 hold the binary operators, the loosest first, and group to
the left. Layer 7 holds the unary operators, literals, variables, calls and expressions in parentheses. -/
inductive ExprAt : Nat → List Token → Expr → Prop where
  | tighter {level : Nat} {tokens : List Token} {expr : Expr} :
      level < 7 → ExprAt (level + 1) tokens expr → ExprAt level tokens expr
  | binary {left right : List Token} {mark : Token} {leftExpr rightExpr : Expr} {op : BinaryOp} :
      ExprAt op.level left leftExpr → BinaryOp.ofKind? mark.kind = some op →
      ExprAt (op.level + 1) right rightExpr →
      ExprAt op.level (left ++ mark :: right) (.binary leftExpr op rightExpr (leftExpr.span.through rightExpr.span))
  | unary {mark : Token} {tokens : List Token} {operand : Expr} {op : UnaryOp} :
      UnaryOp.ofKind? mark.kind = some op → ExprAt 7 tokens operand →
      ExprAt 7 (mark :: tokens) (.unary op operand (mark.span.through operand.span))
  | intLit {token : Token} : token.kind = .integerLiteral →
      ExprAt 7 [token] (.intLit token.value token.span)
  | floatLit {token : Token} : token.kind = .floatLiteral →
      ExprAt 7 [token] (.floatLit token.value token.span)
  | lval {name : Token} {tokens : List Token} {indices : List Expr} {stop : Span} :
      name.kind = .identifier → Indices name.span tokens indices stop →
      ExprAt 7 (name :: tokens)
        (.lval { name := name.value, span := name.span } indices (name.span.through stop))
  | callNone {name opening closing : Token} :
      name.kind = .identifier → opening.kind = .leftParen → closing.kind = .rightParen →
      ExprAt 7 [name, opening, closing]
        (.call { name := name.value, span := name.span } [] (name.span.through closing.span))
  | call {name opening closing : Token} {tokens : List Token} {arguments : List Expr} :
      name.kind = .identifier → opening.kind = .leftParen → ExprList tokens arguments →
      closing.kind = .rightParen →
      ExprAt 7 (name :: opening :: tokens ++ [closing])
        (.call { name := name.value, span := name.span } arguments (name.span.through closing.span))
  | paren {opening closing : Token} {tokens : List Token} {expr : Expr} :
      opening.kind = .leftParen → ExprAt 1 tokens expr → closing.kind = .rightParen →
      ExprAt 7 (opening :: tokens ++ [closing]) expr

/-- Any number of expressions in brackets. They follow a span, and they end at the last bracket, or at
that span if there are none. -/
inductive Indices : Span → List Token → List Expr → Span → Prop where
  | nil {start : Span} : Indices start [] [] start
  | cons {start stop : Span} {opening closing : Token} {tokens more : List Token} {index : Expr}
      {indices : List Expr} :
      opening.kind = .leftBracket → ExprAt 1 tokens index → closing.kind = .rightBracket →
      Indices closing.span more indices stop →
      Indices start (opening :: tokens ++ closing :: more) (index :: indices) stop

/-- One or more expressions with commas between them. -/
inductive ExprList : List Token → List Expr → Prop where
  | single {tokens : List Token} {expr : Expr} : ExprAt 1 tokens expr → ExprList tokens [expr]
  | more {tokens others : List Token} {comma : Token} {expr : Expr} {rest : List Expr} :
      ExprAt 1 tokens expr → comma.kind = .comma → ExprList others rest →
      ExprList (tokens ++ comma :: others) (expr :: rest)

end

theorem ExprAt.loosen {expr : Expr} (derived : ExprAt level tokens expr) {looser : Nat} (below : looser ≤ level)
    (bound : level ≤ 7) : ExprAt looser tokens expr := by
  obtain ⟨gap, rfl⟩ := Nat.exists_eq_add_of_le below
  induction gap with
  | zero => exact derived
  | succ _ ih => exact ih (.tighter (by omega) derived) (by omega) (by omega)

/-! ## Declarations -/

mutual

inductive Initializer : List Token → InitVal → Prop where
  | expr {tokens : List Token} {expr : Expr} : ExprAt 1 tokens expr → Initializer tokens (.expr expr)
  | empty {opening closing : Token} : opening.kind = .leftBrace → closing.kind = .rightBrace →
      Initializer [opening, closing] (.list [] (opening.span.through closing.span))
  | list {opening closing : Token} {tokens : List Token} {elements : List InitVal} :
      opening.kind = .leftBrace → InitializerList tokens elements → closing.kind = .rightBrace →
      Initializer (opening :: tokens ++ [closing]) (.list elements (opening.span.through closing.span))

/-- One or more initializers with commas between them. -/
inductive InitializerList : List Token → List InitVal → Prop where
  | single {tokens : List Token} {init : InitVal} : Initializer tokens init → InitializerList tokens [init]
  | more {tokens others : List Token} {comma : Token} {init : InitVal} {rest : List InitVal} :
      Initializer tokens init → comma.kind = .comma → InitializerList others rest →
      InitializerList (tokens ++ comma :: others) (init :: rest)

end

/-- One or more parts of a form with commas between them. -/
inductive Separated {α : Type} (form : List Token → α → Prop) : List Token → List α → Prop where
  | single {tokens : List Token} {part : α} : form tokens part → Separated form tokens [part]
  | more {tokens others : List Token} {comma : Token} {part : α} {rest : List α} :
      form tokens part → comma.kind = .comma → Separated form others rest →
      Separated form (tokens ++ comma :: others) (part :: rest)

inductive Definition : List Token → VarDef → Prop where
  | plain {name : Token} {tokens : List Token} {dims : List Expr} {stop : Span} :
      name.kind = .identifier → Indices name.span tokens dims stop →
      Definition (name :: tokens)
        { name := name.value, dims, init := none
          span := name.span.through stop, nameSpan := name.span }
  | initialized {name sign : Token} {tokens more : List Token} {dims : List Expr} {stop : Span}
      {init : InitVal} :
      name.kind = .identifier → Indices name.span tokens dims stop → sign.kind = .assign →
      Initializer more init →
      Definition (name :: tokens ++ sign :: more)
        { name := name.value, dims, init := some init
          span := name.span.through init.span, nameSpan := name.span }

inductive Declaring : List Token → Decl → Prop where
  | plain {type stop : Token} {tokens : List Token} {baseType : BaseType} {defs : List VarDef} :
      BaseType.ofKind? type.kind = some baseType → Separated Definition tokens defs →
      stop.kind = .semicolon →
      Declaring (type :: tokens ++ [stop])
        { isConst := false, baseType, defs, span := type.span.through stop.span }
  | const {mark type stop : Token} {tokens : List Token} {baseType : BaseType} {defs : List VarDef} :
      mark.kind = .constKeyword → BaseType.ofKind? type.kind = some baseType →
      Separated Definition tokens defs → stop.kind = .semicolon →
      Declaring (mark :: type :: tokens ++ [stop])
        { isConst := true, baseType, defs, span := mark.span.through stop.span }

/-! ## Statements -/

/-- The left side of an assignment: a variable or an element of an array, in any number of parentheses. -/
inductive Target : List Token → Reference → List Expr → Span → Prop where
  | plain {name : Token} {tokens : List Token} {indices : List Expr} {stop : Span} :
      name.kind = .identifier → Indices name.span tokens indices stop →
      Target (name :: tokens) { name := name.value, span := name.span } indices (name.span.through stop)
  | paren {opening closing : Token} {tokens : List Token} {reference : Reference} {indices : List Expr}
      {span : Span} :
      opening.kind = .leftParen → Target tokens reference indices span → closing.kind = .rightParen →
      Target (opening :: tokens ++ [closing]) reference indices span

theorem Target.exprAt (derived : Target tokens reference indices span) :
    ExprAt 1 tokens (.lval reference indices span) := by
  induction derived with
  | plain named inside => exact (ExprAt.lval named inside).loosen (by decide) (by decide)
  | paren opens _ closes ih => exact (ExprAt.paren opens ih closes).loosen (by decide) (by decide)

theorem ExprAt.target (derived : ExprAt level tokens (.lval reference indices span)) :
    Target tokens reference indices span := by
  generalize shape : Expr.lval reference indices span = expr at derived
  induction derived using ExprAt.rec (motive_2 := fun _ _ _ _ _ => True)
    (motive_3 := fun _ _ _ => True) with
  | tighter _ _ ih => exact ih shape
  | lval named inside =>
    cases shape
    exact .plain named inside
  | paren opens _ closes ih => exact .paren opens (ih shape) closes
  | binary | unary | intLit | floatLit | callNone | call => cases shape
  | _ => trivial

mutual

inductive Statement : List Token → Stmt → Prop where
  | assign {target value : List Token} {sign stop : Token} {reference : Reference}
      {indices : List Expr} {span : Span} {expr : Expr} :
      Target target reference indices span → sign.kind = .assign → ExprAt 1 value expr →
      stop.kind = .semicolon →
      Statement (target ++ sign :: value ++ [stop]) (.assign reference indices span expr (span.through stop.span))
  | expr {tokens : List Token} {stop : Token} {expr : Expr} :
      ExprAt 1 tokens expr → stop.kind = .semicolon →
      Statement (tokens ++ [stop]) (.expr (some expr) (expr.span.through stop.span))
  | empty {stop : Token} : stop.kind = .semicolon → Statement [stop] (.expr none stop.span)
  | block {opening closing : Token} {tokens : List Token} {items : List BlockItem} :
      opening.kind = .leftBrace → Items tokens items → closing.kind = .rightBrace →
      Statement (opening :: tokens ++ [closing]) (.block items (opening.span.through closing.span))
  | branch {keyword opening closing : Token} {tokens body : List Token} {condition : Expr}
      {thenPart : Stmt} :
      keyword.kind = .ifKeyword → opening.kind = .leftParen → ExprAt 1 tokens condition →
      closing.kind = .rightParen → Statement body thenPart →
      Statement (keyword :: opening :: tokens ++ closing :: body)
        (.branch condition thenPart none (keyword.span.through thenPart.span))
  | branchElse {keyword opening closing mark : Token} {tokens body other : List Token}
      {condition : Expr} {thenPart elsePart : Stmt} :
      keyword.kind = .ifKeyword → opening.kind = .leftParen → ExprAt 1 tokens condition →
      closing.kind = .rightParen → Statement body thenPart → mark.kind = .elseKeyword →
      Statement other elsePart →
      Statement (keyword :: opening :: tokens ++ closing :: body ++ mark :: other)
        (.branch condition thenPart (some elsePart) (keyword.span.through elsePart.span))
  | loop {keyword opening closing : Token} {tokens body : List Token} {condition : Expr} {stmt : Stmt} :
      keyword.kind = .whileKeyword → opening.kind = .leftParen → ExprAt 1 tokens condition →
      closing.kind = .rightParen → Statement body stmt →
      Statement (keyword :: opening :: tokens ++ closing :: body)
        (.loop condition stmt (keyword.span.through stmt.span))
  | breakLoop {keyword stop : Token} : keyword.kind = .breakKeyword → stop.kind = .semicolon →
      Statement [keyword, stop] (.breakLoop (keyword.span.through stop.span))
  | continueLoop {keyword stop : Token} : keyword.kind = .continueKeyword → stop.kind = .semicolon →
      Statement [keyword, stop] (.continueLoop (keyword.span.through stop.span))
  | giveNothing {keyword stop : Token} : keyword.kind = .returnKeyword → stop.kind = .semicolon →
      Statement [keyword, stop] (.giveBack none (keyword.span.through stop.span))
  | giveBack {keyword stop : Token} {tokens : List Token} {expr : Expr} :
      keyword.kind = .returnKeyword → ExprAt 1 tokens expr → stop.kind = .semicolon →
      Statement (keyword :: tokens ++ [stop]) (.giveBack (some expr) (keyword.span.through stop.span))

/-- Any number of declarations and statements. -/
inductive Items : List Token → List BlockItem → Prop where
  | nil : Items [] []
  | decl {tokens more : List Token} {decl : Decl} {rest : List BlockItem} :
      Declaring tokens decl → Items more rest → Items (tokens ++ more) (.decl decl :: rest)
  | stmt {tokens more : List Token} {stmt : Stmt} {rest : List BlockItem} :
      Statement tokens stmt → Items more rest → Items (tokens ++ more) (.stmt stmt :: rest)

end

/-! ## Functions and programs -/

inductive Parameter : List Token → Param → Prop where
  | plain {type name : Token} {baseType : BaseType} :
      BaseType.ofKind? type.kind = some baseType → name.kind = .identifier →
      Parameter [type, name]
        { baseType, name := name.value, isArray := false, dims := []
          span := type.span.through name.span, nameSpan := name.span }
  | array {type name opening closing : Token} {tokens : List Token} {baseType : BaseType}
      {dims : List Expr} {stop : Span} :
      BaseType.ofKind? type.kind = some baseType → name.kind = .identifier →
      opening.kind = .leftBracket → closing.kind = .rightBracket →
      Indices closing.span tokens dims stop →
      Parameter (type :: name :: opening :: closing :: tokens)
        { baseType, name := name.value, isArray := true, dims
          span := type.span.through stop, nameSpan := name.span }

/-- The parameters of a function, which may be none. -/
inductive Parameters : List Token → List Param → Prop where
  | none : Parameters [] []
  | some {tokens : List Token} {params : List Param} :
      Separated Parameter tokens params → Parameters tokens params

inductive Function : List Token → FuncDef → Prop where
  | mk {type name opening closing bodyOpening bodyClosing : Token} {tokens body : List Token}
      {returnType : ReturnType} {params : List Param} {items : List BlockItem} :
      ReturnType.ofKind? type.kind = some returnType → name.kind = .identifier →
      opening.kind = .leftParen → Parameters tokens params → closing.kind = .rightParen →
      bodyOpening.kind = .leftBrace → Items body items → bodyClosing.kind = .rightBrace →
      Function (type :: name :: opening :: tokens ++ closing :: bodyOpening :: body ++ [bodyClosing])
        { returnType, name := name.value, params, body := items
          bodySpan := bodyOpening.span.through bodyClosing.span
          span := type.span.through (bodyOpening.span.through bodyClosing.span)
          nameSpan := name.span, typeSpan := type.span }

inductive TopLevel : List Token → List Item → Prop where
  | nil : TopLevel [] []
  | decl {tokens more : List Token} {decl : Decl} {rest : List Item} :
      Declaring tokens decl → TopLevel more rest → TopLevel (tokens ++ more) (.decl decl :: rest)
  | func {tokens more : List Token} {func : FuncDef} {rest : List Item} :
      Function tokens func → TopLevel more rest → TopLevel (tokens ++ more) (.func func :: rest)

end SysYTools.Grammar

namespace SysYTools

/-! ## The nearest `if` -/

/-- A statement ends with an `if` that has no `else`, so that an `else` after it could be taken. -/
def Stmt.endsOpen : Stmt → Bool
  | .branch _ _ none _ => true
  | .branch _ _ (some elsePart) _ => elsePart.endsOpen
  | .loop _ body _ => body.endsOpen
  | _ => false

mutual

/-- Every `else` belongs to the nearest `if` before it: what stands between them takes no `else`. -/
def Stmt.NearestElse : Stmt → Prop
  | .branch _ thenPart none _ => thenPart.NearestElse
  | .branch _ thenPart (some elsePart) _ => thenPart.endsOpen = false ∧ thenPart.NearestElse ∧ elsePart.NearestElse
  | .loop _ body _ => body.NearestElse
  | .block items _ => BlockItem.AllNearestElse items
  | _ => True

def BlockItem.AllNearestElse : List BlockItem → Prop
  | [] => True
  | first :: rest => first.NearestElse ∧ BlockItem.AllNearestElse rest

def BlockItem.NearestElse : BlockItem → Prop
  | .decl _ => True
  | .stmt statement => statement.NearestElse

end

def Item.NearestElse : Item → Prop
  | .decl _ => True
  | .func function => BlockItem.AllNearestElse function.body

end SysYTools
