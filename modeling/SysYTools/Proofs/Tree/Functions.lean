import SysYTools.Proofs.Token.Signs
import SysYTools.Proofs.Tree.Brackets

/-!
The tokens of a function. Its head has no braces, so its body starts at the first one, and a body that is not
empty ends with a semicolon or a brace.
-/

namespace SysYTools.Grammar

open List

variable {tokens left right : List Token}

/-! ## Heads -/

/-- No opening brace is among the tokens. -/
def Braceless (tokens : List Token) : Prop := ∀ token ∈ tokens, token.kind ≠ .leftBrace

namespace Braceless

variable {left right : List Token} {token : Token}

theorem nil : Braceless [] := forall_mem_nil _

theorem cons (other : token.kind ≠ .leftBrace) (rest : Braceless right) : Braceless (token :: right) :=
  forall_mem_cons.mpr ⟨other, rest⟩

theorem append (first : Braceless left) (second : Braceless right) : Braceless (left ++ right) :=
  forall_mem_append.mpr ⟨first, second⟩

end Braceless

theorem ExprAt.braceless {level : Nat} {expr : Expr} (derived : ExprAt level tokens expr) : Braceless tokens := by
  have ofPlain : ∀ {kind : TokenKind}, kind.isPlain = true → kind ≠ .leftBrace := by
    rintro _ isPlain rfl
    cases isPlain
  induction derived using ExprAt.rec (motive_2 := fun _ tokens _ _ _ => Braceless tokens)
    (motive_3 := fun tokens _ _ => Braceless tokens) with
  | tighter _ _ ih => exact ih
  | binary _ found _ leftHypothesis rightHypothesis =>
    exact leftHypothesis.append (rightHypothesis.cons (ofPlain (isPlain_of_binaryOp found)))
  | unary found _ ih => exact ih.cons (ofPlain (isPlain_of_unaryOp found))
  | intLit isLiteral => exact Braceless.nil.cons (by rw [isLiteral]; decide)
  | floatLit isLiteral => exact Braceless.nil.cons (by rw [isLiteral]; decide)
  | lval named _ ih => exact ih.cons (by rw [named]; decide)
  | callNone named opens closes =>
    exact ((Braceless.nil.cons (by rw [closes]; decide)).cons (by rw [opens]; decide)).cons (by rw [named]; decide)
  | call named opens _ closes ih =>
    exact ((ih.cons (by rw [opens]; decide)).cons (by rw [named]; decide)).append
      (Braceless.nil.cons (by rw [closes]; decide))
  | paren opens _ closes ih =>
    exact (ih.cons (by rw [opens]; decide)).append (Braceless.nil.cons (by rw [closes]; decide))
  | nil => exact .nil
  | cons opens _ closes _ ih restHypothesis =>
    exact (ih.cons (by rw [opens]; decide)).append (restHypothesis.cons (by rw [closes]; decide))
  | single _ ih => exact ih
  | more _ separates _ ih restHypothesis => exact ih.append (restHypothesis.cons (by rw [separates]; decide))

theorem Indices.braceless {start stop : Span} {indices : List Expr}
    (derived : Indices start tokens indices stop) : Braceless tokens := by
  have named := @ExprAt.lval { kind := .identifier, value := "", span := start } _ _ _ rfl derived
  exact fun token member => named.braceless token (mem_cons_of_mem _ member)

theorem kind_ne_of_baseType {kind : TokenKind} {type : BaseType} (found : BaseType.ofKind? kind = some type) :
    kind ≠ .leftBrace := by
  rintro rfl
  cases found

theorem Parameters.braceless {params : List Param} (derived : Parameters tokens params) : Braceless tokens := by
  have each : ∀ {tokens : List Token} {param : Param}, Parameter tokens param → Braceless tokens := by
    intro tokens param derived
    cases derived with
    | plain typed named => exact (Braceless.nil.cons (by rw [named]; decide)).cons (kind_ne_of_baseType typed)
    | array typed named opens closes inside =>
      exact (((inside.braceless.cons (by rw [closes]; decide)).cons (by rw [opens]; decide)).cons
        (by rw [named]; decide)).cons (kind_ne_of_baseType typed)
  cases derived with
  | none => exact .nil
  | some inside =>
    induction inside with
    | single first => exact each first
    | more first separates _ ih => exact (each first).append (ih.cons (by rw [separates]; decide))

/-! ## Bodies -/

/-- The last token is a mark. -/
def EndsMarked (tokens : List Token) : Prop := ∃ front last, tokens = front ++ [last] ∧ last.kind.isSign = true

theorem EndsMarked.prepend (ends : EndsMarked tokens) (front : List Token) : EndsMarked (front ++ tokens) := by
  obtain ⟨own, last, rfl, isSign⟩ := ends
  exact ⟨front ++ own, last, (append_assoc ..).symm, isSign⟩

theorem Declaring.endsMarked {decl : Decl} (derived : Declaring tokens decl) : EndsMarked tokens := by
  cases derived with
  | plain _ _ stops => exact ⟨_, _, rfl, by rw [stops]; rfl⟩
  | const _ _ _ stops => exact ⟨_, _, rfl, by rw [stops]; rfl⟩

theorem Items.endsMarked {items : List BlockItem} (derived : Items tokens items) :
    tokens = [] ∨ EndsMarked tokens := by
  have behind : ∀ {first rest : List Token}, EndsMarked first → rest = [] ∨ EndsMarked rest →
      first ++ rest = [] ∨ EndsMarked (first ++ rest) := by
    rintro first rest own (rfl | later)
    · exact .inr (by rwa [append_nil])
    · exact .inr (later.prepend first)
  induction derived using Items.rec (motive_1 := fun tokens _ _ => EndsMarked tokens) with
  | assign _ _ _ stops => exact ⟨_, _, rfl, by rw [stops]; rfl⟩
  | expr _ stops => exact ⟨_, _, rfl, by rw [stops]; rfl⟩
  | empty stops => exact ⟨[], _, rfl, by rw [stops]; rfl⟩
  | block _ _ closes => exact ⟨_, _, rfl, by rw [closes]; rfl⟩
  | @branch keyword opening closing tokens body _ _ _ _ _ _ _ ih =>
    simpa using ih.prepend (keyword :: opening :: tokens ++ [closing])
  | @branchElse keyword opening closing mark tokens body other _ _ _ _ _ _ _ _ _ _ _ ih =>
    simpa using ih.prepend (keyword :: opening :: tokens ++ closing :: body ++ [mark])
  | @loop keyword opening closing tokens body _ _ _ _ _ _ _ ih =>
    simpa using ih.prepend (keyword :: opening :: tokens ++ [closing])
  | breakLoop _ stops => exact ⟨[_], _, rfl, by rw [stops]; rfl⟩
  | continueLoop _ stops => exact ⟨[_], _, rfl, by rw [stops]; rfl⟩
  | giveNothing _ stops => exact ⟨[_], _, rfl, by rw [stops]; rfl⟩
  | giveBack _ _ stops => exact ⟨_, _, rfl, by rw [stops]; rfl⟩
  | nil => exact .inl rfl
  | decl declares _ ih => exact behind declares.endsMarked ih
  | stmt _ _ own ih => exact behind own ih

/-! ## Lists of items -/

theorem Items.append {first second : List BlockItem} (derived : Items left first)
    (more : Items right second) : Items (left ++ right) (first ++ second) := by
  induction derived using Items.rec (motive_1 := fun _ _ _ => True) with
  | nil => exact more
  | decl declares _ ih =>
    rw [append_assoc]
    exact .decl declares ih
  | stmt states _ _ ih =>
    rw [append_assoc]
    exact .stmt states ih
  | _ => trivial

theorem TopLevel.append {first second : List Item} (derived : TopLevel left first)
    (more : TopLevel right second) : TopLevel (left ++ right) (first ++ second) := by
  induction derived with
  | nil => exact more
  | decl declares _ ih =>
    rw [append_assoc]
    exact .decl declares ih
  | func defines _ ih =>
    rw [append_assoc]
    exact .func defines ih

theorem TopLevel.exists_function {front back : List Item} {func : FuncDef}
    (derived : TopLevel tokens (front ++ .func func :: back)) :
    ∃ ahead own behind, tokens = ahead ++ (own ++ behind) ∧ TopLevel ahead front ∧ Function own func ∧
      TopLevel behind back := by
  induction front generalizing tokens with
  | nil =>
    cases derived with
    | func defines rest => exact ⟨[], _, _, rfl, .nil, defines, rest⟩
  | cons _ _ ih =>
    cases derived with
    | decl declares rest =>
      obtain ⟨ahead, own, behind, rfl, first, defines, last⟩ := ih rest
      exact ⟨_ ++ ahead, own, behind, (append_assoc ..).symm, .decl declares first, defines, last⟩
    | func other rest =>
      obtain ⟨ahead, own, behind, rfl, first, defines, last⟩ := ih rest
      exact ⟨_ ++ ahead, own, behind, (append_assoc ..).symm, .func other first, defines, last⟩

end SysYTools.Grammar
