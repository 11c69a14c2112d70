import SysYTools.Proofs.Tree.Shape

/-!
Derivations for other tokens. A derivation looks at the words of its tokens and not at their places, so tokens with
the same words have a derivation of the same shape.

One call may get other arguments besides. The place of its name tells a call from all others. Where the tokens between
its parentheses are exchanged for words that are read as other arguments, all else is read as before.
-/

namespace SysYTools

open List Lexis

variable {tokens : List Token} {kind : TokenKind}
variable {node : Node} {token other opening closing name : Token} {indices : List Expr} {level : Nat} {expr : Expr}
  {start stop span : Span} {reference : Reference} {init : InitVal} {var : VarDef} {params : List Param}

/-- A token without its place. -/
abbrev Word := TokenKind × Text

/-! ## Other arguments -/

section Passing

variable (place : Option Span) (given : List Expr)

mutual

/-- The call whose name stands at a place, if there is one, passes other arguments. -/
def Expr.passing : Expr → Expr
  | .intLit value span => .intLit value span
  | .floatLit value span => .floatLit value span
  | .lval reference indices span => .lval reference (Expr.allPassing indices) span
  | .call reference arguments span =>
    .call reference (if some reference.span = place then given else Expr.allPassing arguments) span
  | .unary op operand span => .unary op operand.passing span
  | .binary left op right span => .binary left.passing op right.passing span

def Expr.allPassing : List Expr → List Expr
  | [] => []
  | first :: rest => first.passing :: Expr.allPassing rest

end

mutual

def InitVal.passing : InitVal → InitVal
  | .expr value => .expr (value.passing place given)
  | .list elements span => .list (InitVal.allPassing elements) span

def InitVal.allPassing : List InitVal → List InitVal
  | [] => []
  | first :: rest => first.passing :: InitVal.allPassing rest

end

def VarDef.passing (var : VarDef) : VarDef :=
  { var with
    dims := Expr.allPassing place given var.dims
    init := var.init.map (InitVal.passing place given) }

def Param.passing (param : Param) : Param :=
  { param with dims := Expr.allPassing place given param.dims }

end Passing

section Unchanged

variable {given : List Expr}

mutual

@[simp] theorem Expr.passing_none (expr : Expr) : expr.passing none given = expr :=
  match expr with
  | .intLit _ _ | .floatLit _ _ => rfl
  | .lval _ indices _ => by rw [Expr.passing, Expr.allPassing_none indices]
  | .call _ arguments _ => by rw [Expr.passing, if_neg nofun, Expr.allPassing_none arguments]
  | .unary _ operand _ => by rw [Expr.passing, operand.passing_none]
  | .binary left _ right _ => by rw [Expr.passing, left.passing_none, right.passing_none]

@[simp] theorem Expr.allPassing_none (exprs : List Expr) : Expr.allPassing none given exprs = exprs :=
  match exprs with
  | [] => rfl
  | first :: rest => by rw [Expr.allPassing, first.passing_none, Expr.allPassing_none rest]

end

mutual

@[simp] theorem InitVal.passing_none (init : InitVal) : init.passing none given = init :=
  match init with
  | .expr value => by rw [InitVal.passing, value.passing_none]
  | .list elements _ => by rw [InitVal.passing, InitVal.allPassing_none elements]

theorem InitVal.allPassing_none (inits : List InitVal) : InitVal.allPassing none given inits = inits :=
  match inits with
  | [] => rfl
  | first :: rest => by rw [InitVal.allPassing, first.passing_none, InitVal.allPassing_none rest]

end

@[simp] theorem VarDef.passing_none (var : VarDef) : var.passing none given = var := by
  cases var with
  | mk _ _ init => cases init <;> simp [VarDef.passing]

@[simp] theorem Param.passing_none (param : Param) : param.passing none given = param := by simp [Param.passing]

end Unchanged

/-- Among nodes and their parts there is a call whose name stands at a place, with these arguments. -/
def Node.AnyPasses (place : Option Span) (nodes : List Node) (arguments : List Expr) : Prop :=
  ∃ node ∈ nodes, ∃ reference span, some reference.span = place ∧ .expr (.call reference arguments span) ∈ node.walk

namespace Node

variable {place : Option Span} {arguments : List Expr}

@[simp] theorem anyPasses_nil : ¬ AnyPasses place [] arguments := by simp [AnyPasses]

@[simp] theorem anyPasses_append {left right : List Node} :
    AnyPasses place (left ++ right) arguments ↔ AnyPasses place left arguments ∨ AnyPasses place right arguments := by
  simp only [AnyPasses, mem_append, or_and_right, exists_or]

theorem anyPasses_singleton :
    AnyPasses place [node] arguments ↔
      (∃ reference span, some reference.span = place ∧ node = .expr (.call reference arguments span)) ∨
        AnyPasses place node.children arguments := by
  simp only [AnyPasses, mem_singleton, exists_eq_left]
  constructor
  · rintro ⟨reference, span, here, member⟩
    rw [walk_eq, mem_cons, mem_flatMap] at member
    rcases member with rfl | ⟨child, isChild, below⟩
    · exact .inl ⟨reference, span, here, rfl⟩
    · exact .inr ⟨child, isChild, reference, span, here, below⟩
  · rintro (⟨reference, span, here, rfl⟩ | ⟨_, isChild, reference, span, here, below⟩)
    · exact ⟨reference, span, here, self_mem_walk _⟩
    · exact ⟨reference, span, here, mem_walk_of_child isChild below⟩

end Node

namespace Grammar

theorem kind_of_wordOf (same : wordOf token = wordOf other) : token.kind = other.kind := (Prod.mk.inj same).1

theorem value_of_wordOf (same : wordOf token = wordOf other) : token.value = other.value :=
  String.toList_inj.mp (Prod.mk.inj same).2

theorem exists_enclosed {inside : List Word} {opening closing : Word}
    (same : tokens.map wordOf = opening :: inside ++ [closing]) :
    ∃ opening' inside' closing', tokens = opening' :: inside' ++ [closing'] ∧
      wordOf opening' = opening ∧ inside'.map wordOf = inside ∧ wordOf closing' = closing := by
  obtain ⟨_, _, rfl, sameFront, sameRest⟩ := map_eq_append_iff.mp same
  obtain ⟨opening', inside', rfl, sameOpening, sameInside⟩ := map_eq_cons_iff.mp sameFront
  obtain ⟨closing', rfl, sameClosing⟩ := map_eq_singleton_iff.mp sameRest
  exact ⟨opening', inside', closing', rfl, sameOpening, sameInside, sameClosing⟩

/-! ## Tokens around arguments -/

/-- The tokens between the parentheses of a call. -/
def Given (tokens : List Token) (arguments : List Expr) : Prop :=
  (tokens = [] ∧ arguments = []) ∨ ExprList tokens arguments

/-- Words that are read as arguments, wherever they stand. -/
def ReadAs (words : List Word) (arguments : List Expr) : Prop :=
  ∀ tokens : List Token, tokens.map wordOf = words →
    ∃ arguments', Given tokens arguments' ∧ Expr.shapes arguments' = Expr.shapes arguments

def isNumber : TokenKind → Bool
  | .integerLiteral | .floatLiteral => true
  | _ => false

/-- A call among tokens. No number stands right before its name. -/
structure CallTokens (tokens front : List Token) (name opening : Token) (inner : List Token) (closing : Token)
    (back : List Token) (arguments : List Expr) : Prop where
  split : tokens = front ++ name :: opening :: (inner ++ closing :: back)
  named : name.kind = .identifier
  opens : opening.kind = .leftParen
  closes : closing.kind = .rightParen
  given : Given inner arguments
  apart : ∀ last ∈ front.getLast?, isNumber last.kind = false

/-- What becomes of the words of tokens when the call whose name stands at a place gets other words between its
parentheses. The tokens are those of nodes, which may have no such call. -/
inductive Frame (place : Option Span) (nodes : List Node) (tokens : List Token) : (List Word → List Word) → Prop where
  | absent : (∀ arguments, ¬ Node.AnyPasses place nodes arguments) → Frame place nodes tokens fun _ => tokens.map wordOf
  | present {front inner back : List Token} {name opening closing : Token} {arguments : List Expr} :
      CallTokens tokens front name opening inner closing back arguments → some name.span = place →
      (∀ others, Node.AnyPasses place nodes others ↔ others = arguments) →
      Frame place nodes tokens fun inside =>
        front.map wordOf ++ wordOf name :: wordOf opening :: (inside ++ wordOf closing :: back.map wordOf)

/-- Tokens of nodes take a form with whatever arguments the call at a place is given. -/
def Carries (place : Option Span) (nodes : List Node) (tokens : List Token) (form : List Expr → List Token → Prop) :
    Prop :=
  (place ≠ none → (tokens.map (·.span)).Nodup) → ∃ frame, Frame place nodes tokens frame ∧
    ∀ given inside, ReadAs inside given → ∀ tokens' : List Token, tokens'.map wordOf = frame inside → form given tokens'

/-- What tokens may be, for the arguments that a call is given. -/
abbrev Form := List Expr → List Token → Prop

namespace Carries

variable {place : Option Span} {nodes nodes' : List Node} {tokens tokens' : List Token} {mark : Token} {kind : TokenKind}
  {form form' : Form}

theorem mono (carries : Carries place nodes tokens form)
    (weaker : ∀ given tokens', form given tokens' → form' given tokens') : Carries place nodes tokens form' := by
  intro nodup
  obtain ⟨frame, isFrame, formed⟩ := carries nodup
  exact ⟨frame, isFrame, fun given inside reads tokens' same =>
    weaker given tokens' (formed given inside reads tokens' same)⟩

theorem congr (carries : Carries place nodes tokens form)
    (same : ∀ arguments, Node.AnyPasses place nodes' arguments ↔ Node.AnyPasses place nodes arguments) :
    Carries place nodes' tokens form := by
  intro nodup
  obtain ⟨frame, isFrame, formed⟩ := carries nodup
  refine ⟨frame, ?_, formed⟩
  cases isFrame with
  | absent none => exact .absent fun arguments => (same arguments).not.mpr (none arguments)
  | present call isPlace only => exact .present call isPlace fun others => (same others).trans (only others)

theorem above (carries : Carries place node.children tokens form)
    (other : ∀ reference arguments span, node ≠ .expr (.call reference arguments span)) :
    Carries place [node] tokens form := by
  refine carries.congr fun arguments => Node.anyPasses_singleton.trans (or_iff_right ?_)
  rintro ⟨_, _, -, isCall⟩
  exact other _ _ _ isCall

theorem reword (carries : Carries none nodes tokens form) (same : tokens'.map wordOf = tokens.map wordOf) :
    form [] tokens' := by
  obtain ⟨_, isFrame, formed⟩ := carries fun some => absurd rfl some
  cases isFrame with
  | absent => exact formed [] [] (fun _ empty => ⟨[], .inl ⟨map_eq_nil_iff.mp empty, rfl⟩, rfl⟩) tokens' same
  | present _ isPlace => cases isPlace

theorem keep (found : mark.kind = kind) : Carries place [] [mark] fun _ all =>
    ∃ mark', all = [mark'] ∧ mark'.kind = kind ∧ mark'.value = mark.value := by
  refine fun _ => ⟨_, .absent fun _ => Node.anyPasses_nil, fun _ _ _ _ same => ?_⟩
  obtain ⟨mark', rfl, sameMark⟩ := map_eq_singleton_iff.mp same
  exact ⟨mark', rfl, (kind_of_wordOf sameMark).trans found, value_of_wordOf sameMark⟩

theorem nil : Carries place [] [] fun _ tokens' => tokens' = [] :=
  fun _ => ⟨_, .absent fun _ => Node.anyPasses_nil, fun _ _ _ _ same => map_eq_nil_iff.mp same⟩

theorem join (first : Carries place nodes tokens form) (second : Carries place nodes' tokens' form')
    (apart : ∀ last ∈ tokens.getLast?, ∀ next ∈ tokens'.head?, next.kind = .identifier → isNumber last.kind = false) :
    Carries place (nodes ++ nodes') (tokens ++ tokens') fun given all =>
      ∃ left right, all = left ++ right ∧ form given left ∧ form' given right := by
  intro nodup
  rw [map_append, nodup_append] at nodup
  obtain ⟨frame, isFrame, formed⟩ := first fun some => (nodup some).1
  obtain ⟨frame', isFrame', formed'⟩ := second fun some => (nodup some).2.1
  refine ⟨fun inside => frame inside ++ frame' inside, ?_, fun given inside reads all same => ?_⟩
  · cases isFrame with
    | absent none =>
      cases isFrame' with
      | absent none' =>
        have framed := @Frame.absent place (nodes ++ nodes') (tokens ++ tokens') (by simp [none, none'])
        simpa using framed
      | @present front inner back name opening closing arguments call isPlace only =>
        have grown : CallTokens (tokens ++ tokens') (tokens ++ front) name opening inner closing back arguments :=
          { call with
            split := by rw [call.split, append_assoc]
            apart := by
              intro last isLast
              rw [getLast?_append, Option.mem_def, Option.or_eq_some_iff] at isLast
              rcases isLast with own | ⟨empty, before⟩
              · exact call.apart last own
              · obtain rfl := getLast?_eq_none_iff.mp empty
                exact apart last before name (by rw [call.split]; rfl) call.named }
        have framed := @Frame.present place (nodes ++ nodes') _ _ _ _ _ _ _ _ grown isPlace
          (fun others => by simp [none, only])
        simpa using framed
    | @present front inner back name opening closing arguments call isPlace only =>
      cases isFrame' with
      | absent none' =>
        have grown : CallTokens (tokens ++ tokens') front name opening inner closing (back ++ tokens') arguments :=
          { call with split := by rw [call.split]; simp }
        have framed := @Frame.present place (nodes ++ nodes') _ _ _ _ _ _ _ _ grown isPlace
          (fun others => by simp [none', only])
        simpa using framed
      | @present front' inner' back' name' opening' closing' arguments' call' isPlace' only' =>
        have distinct := (nodup (isPlace ▸ nofun)).2.2
        refine absurd (Option.some.inj (isPlace.trans isPlace'.symm)) (distinct _ ?_ _ ?_)
        · exact mem_map_of_mem (by rw [call.split]; simp)
        · exact mem_map_of_mem (by rw [call'.split]; simp)
  · obtain ⟨left, right, rfl, sameLeft, sameRight⟩ := map_eq_append_iff.mp same
    exact ⟨left, right, rfl, formed given inside reads left sameLeft, formed' given inside reads right sameRight⟩

theorem cons (found : mark.kind = kind) (carries : Carries place nodes tokens form)
    (other : isNumber kind = false) :
    Carries place nodes (mark :: tokens) fun given all =>
      ∃ mark' rest', all = mark' :: rest' ∧ mark'.kind = kind ∧ mark'.value = mark.value ∧ form given rest' := by
  refine ((keep found).join carries ?_).mono ?_
  · rintro last isLast next - -
    obtain rfl : mark = last := by simpa using isLast
    rwa [found]
  · rintro given _ ⟨_, rest', rfl, ⟨mark', rfl, kind', value'⟩, formed⟩
    exact ⟨mark', rest', rfl, kind', value', formed⟩

theorem split (first : Carries place nodes tokens form) (found : mark.kind = kind)
    (second : Carries place nodes' tokens' form') (other : isNumber kind = false ∧ kind ≠ .identifier) :
    Carries place (nodes ++ nodes') (tokens ++ mark :: tokens') fun given all =>
      ∃ left mark' right, all = left ++ mark' :: right ∧ form given left ∧ mark'.kind = kind ∧ form' given right := by
  refine (first.join (second.cons found other.1) ?_).mono ?_
  · rintro last - next isNext named
    obtain rfl : mark = next := by simpa using isNext
    exact absurd (found.symm.trans named) other.2
  · rintro given _ ⟨left, _, rfl, formed, mark', right, rfl, kind', -, formed'⟩
    exact ⟨left, mark', right, rfl, formed, kind', formed'⟩

theorem concat (carries : Carries place nodes tokens form) (found : mark.kind = kind)
    (other : isNumber kind = false ∧ kind ≠ .identifier) :
    Carries place nodes (tokens ++ [mark]) fun given all =>
      ∃ left mark', all = left ++ [mark'] ∧ form given left ∧ mark'.kind = kind := by
  have split := carries.split found nil other
  rw [append_nil] at split
  refine split.mono ?_
  rintro given _ ⟨left, mark', _, rfl, formed, kind', rfl⟩
  exact ⟨left, mark', rfl, formed, kind'⟩

end Carries

/-! ## Expressions -/

section Expressions

variable {place : Option Span}

/-- An expression with other arguments in it. -/
def AsExpr (place : Option Span) (level : Nat) (expr : Expr) (given : List Expr) (tokens : List Token) : Prop :=
  ∃ expr', ExprAt level tokens expr' ∧ expr'.shape = (expr.passing place given).shape

def AsIndices (place : Option Span) (indices : List Expr) (given : List Expr) (tokens : List Token) : Prop :=
  ∀ start, ∃ indices' stop, Indices start tokens indices' stop ∧
    Expr.shapes indices' = Expr.shapes (Expr.allPassing place given indices)

def AsList (place : Option Span) (exprs : List Expr) (given : List Expr) (tokens : List Token) : Prop :=
  ∃ exprs', ExprList tokens exprs' ∧ Expr.shapes exprs' = Expr.shapes (Expr.allPassing place given exprs)

theorem exists_call {arguments : List Expr}
    (named : name.kind = .identifier) (opens : opening.kind = .leftParen) (given : Given tokens arguments)
    (closes : closing.kind = .rightParen) :
    ExprAt 7 (name :: opening :: (tokens ++ [closing]))
      (.call { name := name.value, span := name.span } arguments (name.span.through closing.span)) := by
  rcases given with ⟨rfl, rfl⟩ | inside
  · exact .callNone named opens closes
  · exact .call named opens inside closes

theorem carries_call {inner : List Token} {arguments : List Expr}
    (named : name.kind = .identifier) (opens : opening.kind = .leftParen) (given : Given inner arguments)
    (closes : closing.kind = .rightParen)
    (inside : Carries place (arguments.map .expr) inner fun given tokens' => ∃ arguments', Given tokens' arguments' ∧
      Expr.shapes arguments' = Expr.shapes (Expr.allPassing place given arguments)) :
    Carries place [.expr (.call ⟨name.value, name.span⟩ arguments (name.span.through closing.span))]
      (name :: opening :: (inner ++ [closing]))
      (AsExpr place 7 (.call ⟨name.value, name.span⟩ arguments (name.span.through closing.span))) := by
  by_cases here : some name.span = place
  · intro nodup
    replace nodup := nodup (here ▸ Option.some_ne_none _)
    have distinct : ∀ token ∈ inner, some token.span ≠ place := by
      intro token member same
      rw [map_cons, nodup_cons] at nodup
      refine nodup.1 (mem_map.mpr ⟨token, ?_, Option.some.inj (same.trans here.symm)⟩)
      exact mem_cons_of_mem _ (mem_append_left _ member)
    -- The arguments stand behind the name, so no other call has its name there.
    have none : ∀ others, ¬ Node.AnyPasses place (arguments.map .expr) others := by
      have innerNodup : (inner.map (·.span)).Nodup := by
        refine List.Nodup.sublist (List.Sublist.map _ ?_) nodup
        exact ((sublist_append_left _ _).cons _).cons _
      obtain ⟨_, isFrame, -⟩ := inside fun _ => innerNodup
      cases isFrame with
      | absent none => exact none
      | present call isPlace => exact absurd isPlace (distinct _ (by rw [call.split]; simp))
    have call : CallTokens (name :: opening :: (inner ++ [closing])) [] name opening inner closing [] arguments :=
      ⟨rfl, named, opens, closes, given, by simp⟩
    refine ⟨_, .present call here fun others => ?_, fun given words reads tokens' same => ?_⟩
    · rw [Node.anyPasses_singleton]
      simp only [Node.children, none, or_false, Node.expr.injEq, Expr.call.injEq]
      constructor
      · rintro ⟨_, _, _, _, rfl, _⟩
        rfl
      · exact fun isArguments => ⟨_, _, here, rfl, isArguments.symm, rfl⟩
    · obtain ⟨name', _, rfl, sameName, sameRest⟩ := map_eq_cons_iff.mp same
      obtain ⟨opening', words', closing', rfl, sameOpening, sameWords, sameClosing⟩ :=
        exists_enclosed (by simpa using sameRest)
      obtain ⟨arguments', given', shapes⟩ := reads words' sameWords
      refine ⟨_, exists_call ((kind_of_wordOf sameName).trans named) ((kind_of_wordOf sameOpening).trans opens) given'
        ((kind_of_wordOf sameClosing).trans closes), ?_⟩
      simp only [Expr.passing, if_pos here, Expr.shape, shapes, Reference.shape, value_of_wordOf sameName]
  · refine (((inside.concat closes (by decide)).cons opens rfl).cons named rfl).congr ?_ |>.mono ?_
    · intro others
      rw [Node.anyPasses_singleton]
      refine or_iff_right ?_
      rintro ⟨_, _, there, isCall⟩
      simp only [Node.expr.injEq, Expr.call.injEq] at isCall
      exact here (by rw [← there, ← isCall.1])
    · rintro given _ ⟨_, _, rfl, named', sameName, _, _, rfl, opens', -, _, _, rfl,
        ⟨_, given', shapes⟩, closes'⟩
      refine ⟨_, exists_call named' opens' given' closes', ?_⟩
      simp only [Expr.passing, if_neg here, Expr.shape, shapes, Reference.shape, sameName]

theorem not_isNumber_of_binaryOp {op : BinaryOp} (found : BinaryOp.ofKind? kind = some op) :
    isNumber kind = false ∧ kind ≠ .identifier := by
  cases kind <;> first | exact ⟨rfl, by decide⟩ | cases found

theorem not_isNumber_of_unaryOp {op : UnaryOp} (found : UnaryOp.ofKind? kind = some op) : isNumber kind = false := by
  cases kind <;> first | rfl | cases found

theorem carries_noIndex : Carries place [] [] (AsIndices place []) := by
  refine Carries.nil.mono ?_
  rintro given _ rfl start
  exact ⟨[], start, .nil, rfl⟩

theorem carries_index {more : List Token} {index : Expr}
    (opens : opening.kind = .leftBracket) (inside : Carries place [.expr index] tokens (AsExpr place 1 index))
    (closes : closing.kind = .rightBracket)
    (others : Carries place (indices.map .expr) more (AsIndices place indices)) :
    Carries place (.expr index :: indices.map .expr) (opening :: tokens ++ closing :: more)
      (AsIndices place (index :: indices)) := by
  refine ((inside.split closes others (by decide)).cons opens rfl).mono ?_
  rintro given _ ⟨_, _, rfl, opens', -, _, closing', _, rfl, ⟨_, derived', shape⟩, closes', formed⟩ start
  obtain ⟨_, stop', derivedMore, shapes⟩ := formed closing'.span
  exact ⟨_, stop', .cons opens' derived' closes' derivedMore,
    by rw [Expr.allPassing, Expr.shapes, Expr.shapes, shape, shapes]⟩

theorem ExprAt.carries (derived : ExprAt level tokens expr) :
    Carries place [.expr expr] tokens (AsExpr place level expr) := by
  induction derived using ExprAt.rec
    (motive_2 := fun _ tokens indices _ _ => Carries place (indices.map .expr) tokens (AsIndices place indices))
    (motive_3 := fun tokens exprs _ => Carries place (exprs.map .expr) tokens (AsList place exprs)) with
  | tighter below _ ih =>
    refine ih.mono ?_
    rintro given tokens' ⟨expr', derived', shape⟩
    exact ⟨expr', .tighter below derived', shape⟩
  | binary _ found _ leftHypothesis rightHypothesis =>
    refine Carries.above ((leftHypothesis.split rfl rightHypothesis (not_isNumber_of_binaryOp found)).mono ?_) (by simp)
    rintro given _ ⟨_, mark', _, rfl, ⟨_, derivedLeft, leftShape⟩, kind', _, derivedRight, rightShape⟩
    refine ⟨_, .binary derivedLeft (kind' ▸ found) derivedRight, ?_⟩
    rw [Expr.passing, Expr.shape, Expr.shape, leftShape, rightShape]
  | unary found _ ih =>
    refine Carries.above ((ih.cons rfl (not_isNumber_of_unaryOp found)).mono ?_) (by simp)
    rintro given _ ⟨_, rest', rfl, kind', -, _, derived', shape⟩
    exact ⟨_, .unary (kind' ▸ found) derived', by rw [Expr.passing, Expr.shape, Expr.shape, shape]⟩
  | intLit isLiteral =>
    refine Carries.above ((Carries.keep isLiteral).mono ?_) (by simp)
    rintro given _ ⟨token', rfl, isLiteral', same⟩
    exact ⟨_, .intLit isLiteral', by rw [Expr.passing, Expr.shape, Expr.shape, same]⟩
  | floatLit isLiteral =>
    refine Carries.above ((Carries.keep isLiteral).mono ?_) (by simp)
    rintro given _ ⟨_, rfl, isLiteral', same⟩
    exact ⟨_, .floatLit isLiteral', by rw [Expr.passing, Expr.shape, Expr.shape, same]⟩
  | lval named _ ih =>
    refine Carries.above ((ih.cons named rfl).mono ?_) (by simp)
    rintro given _ ⟨name', _, rfl, named', same, formed⟩
    obtain ⟨_, _, derived', shapes⟩ := formed name'.span
    refine ⟨_, .lval named' derived', ?_⟩
    rw [Expr.passing, Expr.shape, Expr.shape, shapes, Reference.shape, Reference.shape, same]
  | callNone named opens closes =>
    refine carries_call named opens (.inl ⟨rfl, rfl⟩) closes (Carries.nil.mono ?_)
    rintro given _ rfl
    exact ⟨[], .inl ⟨rfl, rfl⟩, rfl⟩
  | call named opens inside closes ih =>
    refine carries_call named opens (.inr inside) closes (ih.mono ?_)
    rintro given tokens' ⟨arguments', derived', shapes⟩
    exact ⟨arguments', .inr derived', shapes⟩
  | paren opens _ closes ih =>
    refine ((ih.concat closes (by decide)).cons opens rfl).mono ?_
    rintro given _ ⟨_, _, rfl, opens', -, _, _, rfl, ⟨expr', derived', shape⟩, closes'⟩
    exact ⟨expr', .paren opens' derived' closes', shape⟩
  | nil => exact carries_noIndex
  | cons opens _ closes _ ih restHypothesis => exact carries_index opens ih closes restHypothesis
  | single _ ih =>
    refine ih.mono ?_
    rintro given tokens' ⟨expr', derived', shape⟩
    exact ⟨[expr'], .single derived', by simp only [Expr.allPassing, Expr.shapes, shape]⟩
  | more _ separates _ ih restHypothesis =>
    refine (ih.split separates restHypothesis (by decide)).mono ?_
    rintro given _ ⟨_, _, _, rfl, ⟨_, derived', shape⟩, separates', _, derivedOthers, shapes⟩
    exact ⟨_, .more derived' separates' derivedOthers, by rw [Expr.allPassing, Expr.shapes, Expr.shapes, shape, shapes]⟩

theorem Indices.carries
    (derived : Indices start tokens indices stop) :
    Carries place (indices.map .expr) tokens (AsIndices place indices) := by
  induction derived using Indices.rec (motive_1 := fun _ _ _ _ => True) (motive_3 := fun _ _ _ => True) with
  | nil => exact carries_noIndex
  | cons opens inside closes _ _ ih => exact carries_index opens inside.carries closes ih
  | _ => trivial

theorem Target.carries
    (derived : Target tokens reference indices span) :
    Carries place [.expr (.lval reference indices span)] tokens fun given tokens' =>
      ∃ reference' indices' span', Target tokens' reference' indices' span' ∧ reference'.shape = reference.shape ∧
        Expr.shapes indices' = Expr.shapes (Expr.allPassing place given indices) := by
  refine derived.exprAt.carries.mono ?_
  rintro given tokens' ⟨expr', derived', shape⟩
  cases expr' with
  | lval reference' indices' span' =>
    simp only [Expr.passing, Expr.shape, Expr.lval.injEq] at shape
    exact ⟨reference', indices', span', derived'.target, shape.1, shape.2.1⟩
  | _ => cases shape

end Expressions

/-! ## Definitions and parameters -/

section Definitions

variable {place : Option Span}

theorem Separated.carries {α β : Type} {form : List Token → α → Prop} {parts : List α}
    (derived : Separated form tokens parts) (node : α → Node) (change : List Expr → α → α) (shape : α → β)
    (each : ∀ {tokens : List Token} {part : α}, form tokens part →
      Carries place [node part] tokens fun given tokens' =>
        ∃ part', form tokens' part' ∧ shape part' = shape (change given part)) :
    Carries place (parts.map node) tokens fun given tokens' =>
      ∃ parts', Separated form tokens' parts' ∧ parts'.map shape = (parts.map (change given)).map shape := by
  induction derived with
  | single first =>
    refine (each first).mono ?_
    rintro given tokens' ⟨part', derived', shaped⟩
    exact ⟨[part'], .single derived', by simp only [map_singleton, shaped]⟩
  | more first separates _ ih =>
    refine ((each first).split separates ih (by decide)).mono ?_
    rintro given _ ⟨_, _, _, rfl, ⟨_, derived', shaped⟩, separates', _, derivedOthers, shapes⟩
    exact ⟨_, .more derived' separates' derivedOthers, by simp only [map_cons, shaped, shapes]⟩

theorem Initializer.carries (derived : Initializer tokens init) :
    Carries place [init.node] tokens fun given tokens' =>
      ∃ init', Initializer tokens' init' ∧ init'.shape = (init.passing place given).shape := by
  induction derived using Initializer.rec
    (motive_2 := fun tokens inits _ => Carries place (inits.map (·.node)) tokens fun given tokens' =>
      ∃ inits', InitializerList tokens' inits' ∧
        InitVal.shapes inits' = InitVal.shapes (InitVal.allPassing place given inits)) with
  | expr inside =>
    refine inside.carries.mono ?_
    rintro given tokens' ⟨_, derived', shape⟩
    exact ⟨_, .expr derived', by rw [InitVal.passing, InitVal.shape, InitVal.shape, shape]⟩
  | empty opens closes =>
    refine Carries.above (((Carries.keep closes).cons opens rfl).mono ?_) (by simp [InitVal.node])
    rintro given _ ⟨opening', _, rfl, opens', -, closing', rfl, closes', -⟩
    exact ⟨_, .empty opens' closes', rfl⟩
  | list opens _ closes ih =>
    refine Carries.above (((ih.concat closes (by decide)).cons opens rfl).mono ?_) (by simp [InitVal.node])
    rintro given _ ⟨_, _, rfl, opens', -, _, _, rfl, ⟨_, derived', shapes⟩, closes'⟩
    exact ⟨_, .list opens' derived' closes', by rw [InitVal.passing, InitVal.shape, InitVal.shape, shapes]⟩
  | single _ ih =>
    refine ih.mono ?_
    rintro given tokens' ⟨init', derived', shape⟩
    exact ⟨[init'], .single derived', by simp only [InitVal.allPassing, InitVal.shapes, shape]⟩
  | more _ separates _ ih restHypothesis =>
    refine (ih.split separates restHypothesis (by decide)).mono ?_
    rintro given _ ⟨_, _, _, rfl, ⟨_, derived', shape⟩, separates', _, derivedOthers, shapes⟩
    exact ⟨_, .more derived' separates' derivedOthers,
      by rw [InitVal.allPassing, InitVal.shapes, InitVal.shapes, shape, shapes]⟩

theorem Definition.carries (derived : Definition tokens var) :
    Carries place [.varDef var] tokens fun given tokens' =>
      ∃ var', Definition tokens' var' ∧ var'.shape = (var.passing place given).shape := by
  cases derived with
  | plain named sizes =>
    refine Carries.above ((sizes.carries.cons named rfl).congr (by simp [Node.children]) |>.mono ?_) (by simp)
    rintro given _ ⟨name', _, rfl, named', same, formed⟩
    obtain ⟨dims', stop', derived', shapes⟩ := formed name'.span
    exact ⟨_, .plain named' derived', by simp [VarDef.shape, VarDef.passing, shapes, same]⟩
  | initialized named sizes assigns init =>
    refine Carries.above (((sizes.carries.split assigns init.carries (by decide)).cons named rfl).mono ?_) (by simp)
    rintro given _ ⟨name', _, rfl, named', same, _, _, _, rfl, formed, assigns', _, derivedInit, shape⟩
    obtain ⟨_, _, derived', shapes⟩ := formed name'.span
    refine ⟨_, .initialized named' derived' assigns' derivedInit, ?_⟩
    simp [VarDef.shape, VarDef.passing, shapes, shape, same]

theorem not_isNumber_of_baseType {type : BaseType} (typed : BaseType.ofKind? kind = some type) :
    isNumber kind = false := by
  cases kind <;> first | rfl | cases typed

theorem Parameter.carries {param : Param} (derived : Parameter tokens param) :
    Carries place [.param param] tokens fun given tokens' =>
      ∃ param', Parameter tokens' param' ∧ param'.shape = (param.passing place given).shape := by
  cases derived with
  | plain typed named =>
    refine Carries.above (((Carries.keep named).cons rfl (not_isNumber_of_baseType typed)).mono ?_) (by simp)
    rintro given _ ⟨type', _, rfl, kind', -, name', rfl, named', same⟩
    exact ⟨_, .plain (kind' ▸ typed) named', by simp [Param.shape, Param.passing, Expr.allPassing, same]⟩
  | array typed named opens closes inside =>
    refine Carries.above (((((inside.carries.cons closes rfl).cons opens rfl).cons named rfl).cons rfl
      (not_isNumber_of_baseType typed)).mono ?_) (by simp)
    rintro given _ ⟨_, _, rfl, kind', -, _, _, rfl, named', same, _, _, rfl, opens', -, closing', _,
      rfl, closes', -, formed⟩
    obtain ⟨_, _, derived', shapes⟩ := formed closing'.span
    refine ⟨_, .array (kind' ▸ typed) named' opens' closes' derived', ?_⟩
    rw [Param.passing, Param.shape, Param.shape, shapes, same]

theorem Parameters.carries (derived : Parameters tokens params) :
    Carries place (params.map .param) tokens fun given tokens' => ∃ params', Parameters tokens' params' ∧
      params'.map Param.shape = (params.map (·.passing place given)).map Param.shape := by
  cases derived with
  | none =>
    refine Carries.nil.mono ?_
    rintro given _ rfl
    exact ⟨[], .none, rfl⟩
  | some inside =>
    refine (inside.carries .param (fun given param => param.passing place given) Param.shape Parameter.carries).mono ?_
    rintro given tokens' ⟨params', derived', shapes⟩
    exact ⟨params', .some derived', shapes⟩

end Definitions

/-! ## The same words -/

section Rewording

variable {tokens tokens' : List Token}

theorem ExprAt.reword (derived : ExprAt level tokens expr) (same : tokens'.map wordOf = tokens.map wordOf) :
    ∃ expr', ExprAt level tokens' expr' ∧ expr'.shape = expr.shape := by
  simpa only [AsExpr, Expr.passing_none] using derived.carries.reword same

theorem Indices.reword (derived : Indices start tokens indices stop)
    (same : tokens'.map wordOf = tokens.map wordOf) (start' : Span) :
    ∃ indices' stop', Indices start' tokens' indices' stop' ∧ Expr.shapes indices' = Expr.shapes indices := by
  simpa only [Expr.allPassing_none] using derived.carries.reword same start'

theorem Target.reword
    (derived : Target tokens reference indices span) (same : tokens'.map wordOf = tokens.map wordOf) :
    ∃ reference' indices' span', Target tokens' reference' indices' span' ∧
      reference'.shape = reference.shape ∧ Expr.shapes indices' = Expr.shapes indices := by
  simpa only [Expr.allPassing_none] using derived.carries.reword same

theorem Initializer.reword (derived : Initializer tokens init) (same : tokens'.map wordOf = tokens.map wordOf) :
    ∃ init', Initializer tokens' init' ∧ init'.shape = init.shape := by
  simpa only [InitVal.passing_none] using derived.carries.reword same

theorem Definition.reword (derived : Definition tokens var) (same : tokens'.map wordOf = tokens.map wordOf) :
    ∃ var', Definition tokens' var' ∧ var'.shape = var.shape := by
  simpa only [VarDef.passing_none] using derived.carries.reword same

theorem Parameters.reword (derived : Parameters tokens params) (same : tokens'.map wordOf = tokens.map wordOf) :
    ∃ params', Parameters tokens' params' ∧ params'.map Param.shape = params.map Param.shape := by
  simpa only [Param.passing_none, map_id'] using derived.carries.reword same

end Rewording

end Grammar

end SysYTools
