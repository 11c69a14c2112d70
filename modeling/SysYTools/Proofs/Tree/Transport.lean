import SysYTools.Proofs.Tree.Relocation

/-!
Derivations under a change of places. A change takes the places of one text to those of another. What tokens
write depends on their places only through the first and the last place of each part, so the changed tokens
write the changed tree. If the change keeps the order of places, then spans follow each other as before.
-/

namespace SysYTools

/-! ## Spans -/

namespace Span

variable (shift : ℤ ×ₗ ℤ → ℤ ×ₗ ℤ)

/-- The span between the changed places. -/
def along (span : Span) : Span :=
  { file := span.file
    startLine := (ofLex (shift span.first)).1, startColumn := (ofLex (shift span.first)).2
    endLine := (ofLex (shift span.last)).1, endColumn := (ofLex (shift span.last)).2 }

@[simp] theorem first_along (span : Span) : (span.along shift).first = shift span.first := rfl

@[simp] theorem last_along (span : Span) : (span.along shift).last = shift span.last := rfl

@[simp] theorem along_through (start stop : Span) :
    (start.through stop).along shift = (start.along shift).through (stop.along shift) := rfl

variable {shift}

theorem along_before_iff (mono : StrictMono shift) {left right : Span} :
    (left.along shift).Before (right.along shift) ↔ left.Before right :=
  mono.lt_iff_lt

theorem ext_places {left right : Span} (file : left.file = right.file) (first : left.first = right.first)
    (last : left.last = right.last) : left = right := by
  obtain ⟨_, _, _, _, _⟩ := left
  obtain ⟨_, _, _, _, _⟩ := right
  obtain ⟨rfl, rfl⟩ := Prod.mk.inj (toLex_inj.mp first)
  obtain ⟨rfl, rfl⟩ := Prod.mk.inj (toLex_inj.mp last)
  cases file
  rfl

theorem along_injective (mono : StrictMono shift) : Function.Injective (along shift) := by
  intro left right (same : left.along shift = right.along shift)
  refine ext_places ?_ (mono.injective ?_) (mono.injective ?_)
  · have files := congrArg Span.file same
    exact files
  · exact congrArg Span.first same
  · exact congrArg Span.last same

end Span

variable {shift : ℤ ×ₗ ℤ → ℤ ×ₗ ℤ}

def Token.along (shift : ℤ ×ₗ ℤ → ℤ ×ₗ ℤ) (token : Token) : Token :=
  { token with span := token.span.along shift }

@[simp] theorem Token.value_along (token : Token) : (token.along shift).value = token.value := rfl

@[simp] theorem Token.span_along (token : Token) : (token.along shift).span = token.span.along shift := rfl

theorem Token.kind_along (shift : ℤ ×ₗ ℤ → ℤ ×ₗ ℤ) {token : Token} {kind : TokenKind} (found : token.kind = kind) :
    (token.along shift).kind = kind :=
  found

/-- Changes the places of a tree. -/
abbrev Relocation.along (shift : ℤ ×ₗ ℤ → ℤ ×ₗ ℤ) : Relocation := .all (Span.along shift)

/-! ## Derivations -/

namespace Grammar

open Relocation

private def ExprMoves (shift : ℤ ×ₗ ℤ → ℤ ×ₗ ℤ) (level : Nat) (tokens : List Token) (expr : Expr) : Prop :=
  ExprAt level (tokens.map (·.along shift)) (expr.relocate (along shift))

private def IndicesMove (shift : ℤ ×ₗ ℤ → ℤ ×ₗ ℤ) (start : Span) (tokens : List Token) (indices : List Expr)
    (stop : Span) : Prop :=
  Indices (start.along shift) (tokens.map (·.along shift)) (indices.map (·.relocate (along shift))) (stop.along shift)

private def ListMoves (shift : ℤ ×ₗ ℤ → ℤ ×ₗ ℤ) (tokens : List Token) (exprs : List Expr) : Prop :=
  ExprList (tokens.map (·.along shift)) (exprs.map (·.relocate (along shift)))

theorem ExprAt.along {level : Nat} {tokens : List Token} {expr : Expr} (derived : ExprAt level tokens expr) :
    ExprAt level (tokens.map (·.along shift)) (expr.relocate (.along shift)) := by
  change ExprMoves shift level tokens expr
  induction derived using ExprAt.rec
    (motive_2 := fun start tokens indices stop _ => IndicesMove shift start tokens indices stop)
    (motive_3 := fun tokens exprs _ => ListMoves shift tokens exprs) with
  | tighter below _ ih => exact .tighter below ih
  | @binary _ _ mark _ _ op _ isOp _ ihLeft ihRight =>
    have moved : BinaryOp.ofKind? (mark.along shift).kind = some op := isOp
    simpa [ExprMoves, Expr.relocate] using ExprAt.binary ihLeft moved ihRight
  | @unary mark _ _ op isOp _ ih =>
    have moved : UnaryOp.ofKind? (mark.along shift).kind = some op := isOp
    simpa [ExprMoves, Expr.relocate] using ExprAt.unary moved ih
  | intLit isLiteral => exact .intLit (Token.kind_along shift isLiteral)
  | floatLit isLiteral => exact .floatLit (Token.kind_along shift isLiteral)
  | lval named _ ih =>
    simpa [ExprMoves, Expr.relocate, Reference.relocate] using ExprAt.lval (Token.kind_along shift named) ih
  | callNone named opens closes =>
    exact .callNone (Token.kind_along shift named) (Token.kind_along shift opens) (Token.kind_along shift closes)
  | call named opens _ closes ih =>
    simpa [ExprMoves, Expr.relocate, Reference.relocate] using
      ExprAt.call (Token.kind_along shift named) (Token.kind_along shift opens) ih (Token.kind_along shift closes)
  | paren opens _ closes ih =>
    simpa [ExprMoves] using ExprAt.paren (Token.kind_along shift opens) ih (Token.kind_along shift closes)
  | nil => exact .nil
  | cons opens _ closes _ ih ihMore =>
    simpa [IndicesMove] using Indices.cons (Token.kind_along shift opens) ih (Token.kind_along shift closes) ihMore
  | single _ ih => exact .single ih
  | more _ separates _ ih ihMore => simpa [ListMoves] using ExprList.more ih (Token.kind_along shift separates) ihMore

theorem Indices.along {start stop : Span} {tokens : List Token} {indices : List Expr}
    (derived : Indices start tokens indices stop) :
    Indices (start.along shift) (tokens.map (·.along shift)) (indices.map (·.relocate (.along shift)))
      (stop.along shift) := by
  induction derived using Indices.rec (motive_1 := fun _ _ _ _ => True) (motive_3 := fun _ _ _ => True) with
  | nil => exact .nil
  | cons opens index closes _ _ ih =>
    simpa using Indices.cons (Token.kind_along shift opens) index.along (Token.kind_along shift closes) ih
  | _ => trivial

theorem Initializer.along {tokens : List Token} {init : InitVal} (derived : Initializer tokens init) :
    Initializer (tokens.map (·.along shift)) (init.relocate (.along shift)) := by
  induction derived using Initializer.rec (motive_2 := fun tokens inits _ =>
    InitializerList (tokens.map (·.along shift)) (inits.map (·.relocate (.along shift)))) with
  | expr value => exact .expr value.along
  | empty opens closes => exact .empty (Token.kind_along shift opens) (Token.kind_along shift closes)
  | list opens _ closes ih =>
    simpa [InitVal.relocate] using Initializer.list (Token.kind_along shift opens) ih (Token.kind_along shift closes)
  | single _ ih => exact .single ih
  | more _ separates _ ih ihMore => simpa using InitializerList.more ih (Token.kind_along shift separates) ihMore

theorem Separated.along {α : Type} {form : List Token → α → Prop} {change : α → α}
    (each : ∀ tokens part, form tokens part → form (tokens.map (·.along shift)) (change part))
    {tokens : List Token} {parts : List α} (derived : Separated form tokens parts) :
    Separated form (tokens.map (·.along shift)) (parts.map change) := by
  induction derived with
  | single part => exact .single (each _ _ part)
  | more part separates _ ih => simpa using Separated.more (each _ _ part) (Token.kind_along shift separates) ih

section

variable {tokens : List Token}

theorem Definition.along {var : VarDef} (derived : Definition tokens var) :
    Definition (tokens.map (·.along shift)) (var.relocate (.along shift)) := by
  cases derived with
  | plain named dims => simpa [VarDef.relocate] using Definition.plain (Token.kind_along shift named) dims.along
  | initialized named dims signed init =>
    simpa [VarDef.relocate] using
      Definition.initialized (Token.kind_along shift named) dims.along (Token.kind_along shift signed) init.along

theorem Declaring.along {decl : Decl} (derived : Declaring tokens decl) :
    Declaring (tokens.map (·.along shift)) (decl.relocate (.along shift)) := by
  cases derived with
  | @plain type _ _ baseType _ typed defs stops =>
    have moved : BaseType.ofKind? (type.along shift).kind = some baseType := typed
    simpa [Decl.relocate] using
      Declaring.plain moved (defs.along fun _ _ part => part.along) (Token.kind_along shift stops)
  | @const _ type _ _ baseType _ marked typed defs stops =>
    have moved : BaseType.ofKind? (type.along shift).kind = some baseType := typed
    simpa [Decl.relocate] using Declaring.const (Token.kind_along shift marked) moved
      (defs.along fun _ _ part => part.along) (Token.kind_along shift stops)

theorem Target.along {reference : Reference} {indices : List Expr} {span : Span}
    (derived : Target tokens reference indices span) :
    Target (tokens.map (·.along shift)) (reference.relocate (.along shift))
      (indices.map (·.relocate (.along shift))) (span.along shift) := by
  induction derived with
  | plain named inside => simpa [Reference.relocate] using Target.plain (Token.kind_along shift named) inside.along
  | paren opens _ closes ih =>
    simpa using Target.paren (Token.kind_along shift opens) ih (Token.kind_along shift closes)

theorem Items.along {items : List BlockItem} (derived : Items tokens items) :
    Items (tokens.map (·.along shift)) (items.map (·.relocate (.along shift))) := by
  induction derived using Items.rec (motive_1 := fun tokens stmt _ =>
    Statement (tokens.map (·.along shift)) (stmt.relocate (.along shift))) with
  | assign target assigns value stops =>
    simpa [Stmt.relocate] using
      Statement.assign target.along (Token.kind_along shift assigns) value.along (Token.kind_along shift stops)
  | expr value stops => simpa [Stmt.relocate] using Statement.expr value.along (Token.kind_along shift stops)
  | empty stops => exact .empty (Token.kind_along shift stops)
  | block opens _ closes ih =>
    simpa [Stmt.relocate] using Statement.block (Token.kind_along shift opens) ih (Token.kind_along shift closes)
  | branch found opens condition closes _ ih =>
    simpa [Stmt.relocate] using Statement.branch (Token.kind_along shift found) (Token.kind_along shift opens)
      condition.along (Token.kind_along shift closes) ih
  | branchElse found opens condition closes _ otherwise _ ihThen ihElse =>
    simpa [Stmt.relocate] using Statement.branchElse (Token.kind_along shift found)
      (Token.kind_along shift opens) condition.along (Token.kind_along shift closes) ihThen
      (Token.kind_along shift otherwise) ihElse
  | loop found opens condition closes _ ih =>
    simpa [Stmt.relocate] using Statement.loop (Token.kind_along shift found) (Token.kind_along shift opens)
      condition.along (Token.kind_along shift closes) ih
  | breakLoop found stops => exact .breakLoop (Token.kind_along shift found) (Token.kind_along shift stops)
  | continueLoop found stops => exact .continueLoop (Token.kind_along shift found) (Token.kind_along shift stops)
  | giveNothing found stops => exact .giveNothing (Token.kind_along shift found) (Token.kind_along shift stops)
  | giveBack found value stops =>
    simpa [Stmt.relocate] using
      Statement.giveBack (Token.kind_along shift found) value.along (Token.kind_along shift stops)
  | nil => exact .nil
  | decl declares _ ih => simpa [BlockItem.relocate] using Items.decl declares.along ih
  | stmt _ _ ih ihMore => simpa [BlockItem.relocate] using Items.stmt ih ihMore

theorem Parameter.along {param : Param} (derived : Parameter tokens param) :
    Parameter (tokens.map (·.along shift)) (param.relocate (.along shift)) := by
  cases derived with
  | @plain type _ baseType typed named =>
    have moved : BaseType.ofKind? (type.along shift).kind = some baseType := typed
    exact .plain moved (Token.kind_along shift named)
  | @array type _ _ _ _ baseType _ _ typed named opens closes dims =>
    have moved : BaseType.ofKind? (type.along shift).kind = some baseType := typed
    simpa [Param.relocate] using Parameter.array moved (Token.kind_along shift named)
      (Token.kind_along shift opens) (Token.kind_along shift closes) dims.along

theorem Parameters.along {params : List Param} (derived : Parameters tokens params) :
    Parameters (tokens.map (·.along shift)) (params.map (·.relocate (.along shift))) := by
  cases derived with
  | none => exact .none
  | some params => exact .some (params.along fun _ _ part => part.along)

theorem Function.along {func : FuncDef} (derived : Function tokens func) :
    Function (tokens.map (·.along shift)) (func.relocate (.along shift)) := by
  cases derived with
  | @mk type _ _ _ _ _ _ _ returnType _ _ typed named opens params closes bodyOpens body bodyCloses =>
    have moved : ReturnType.ofKind? (type.along shift).kind = some returnType := typed
    simpa [FuncDef.relocate] using Function.mk moved (Token.kind_along shift named)
      (Token.kind_along shift opens) params.along (Token.kind_along shift closes)
      (Token.kind_along shift bodyOpens) body.along (Token.kind_along shift bodyCloses)

theorem TopLevel.along {items : List Item} (derived : TopLevel tokens items) :
    TopLevel (tokens.map (·.along shift)) (items.map (·.relocate (.along shift))) := by
  induction derived with
  | nil => exact .nil
  | decl declares _ ih => simpa [Item.relocate] using TopLevel.decl declares.along ih
  | func defines _ ih => simpa [Item.relocate] using TopLevel.func defines.along ih

end

end Grammar

theorem Item.nearestElse_relocate {move : Relocation} (item : Item) :
    (item.relocate move).NearestElse ↔ item.NearestElse := by
  rw [← Item.nearestElse_shape id, item.shape_relocate, Item.nearestElse_shape]

end SysYTools
