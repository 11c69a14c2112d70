import SysYTools.Proofs.Tree.Acceptance
import SysYTools.Proofs.Tree.Functions

/-!
Other tokens for a program. Where the tokens of expressions and of definitions are exchanged for others, and the marks
and keywords between them stay, statements stay statements, and a program stays a program.
-/

namespace SysYTools

open List Lexis Grammar

variable {value tokens rest : List Token} {expr : Expr} {kind : TokenKind}

/-! ## Other arguments -/

section Passing

variable (place : Option Span) (given : List Expr)

def Decl.passing (decl : Decl) : Decl :=
  { decl with defs := decl.defs.map (·.passing place given) }

mutual

def Stmt.passing : Stmt → Stmt
  | .block items span => .block (BlockItem.allPassing items) span
  | .assign target indices targetSpan value span =>
    .assign target (Expr.allPassing place given indices) targetSpan (value.passing place given) span
  | .expr value span => .expr (value.map (Expr.passing place given)) span
  | .branch condition thenPart none span => .branch (condition.passing place given) thenPart.passing none span
  | .branch condition thenPart (some elsePart) span =>
    .branch (condition.passing place given) thenPart.passing (some elsePart.passing) span
  | .loop condition body span => .loop (condition.passing place given) body.passing span
  | .breakLoop span => .breakLoop span
  | .continueLoop span => .continueLoop span
  | .giveBack value span => .giveBack (value.map (Expr.passing place given)) span

def BlockItem.allPassing : List BlockItem → List BlockItem
  | [] => []
  | first :: rest => first.passing :: BlockItem.allPassing rest

def BlockItem.passing : BlockItem → BlockItem
  | .decl declaration => .decl (declaration.passing place given)
  | .stmt statement => .stmt statement.passing

end

def FuncDef.passing (func : FuncDef) : FuncDef :=
  { func with
    params := func.params.map (·.passing place given)
    body := BlockItem.allPassing place given func.body }

def Item.passing : Item → Item
  | .decl declaration => .decl (declaration.passing place given)
  | .func function => .func (function.passing place given)

/-- The program in which the call whose name stands at a place, if there is one, passes other arguments. -/
def CompUnit.passing (unit : CompUnit) : CompUnit :=
  { unit with items := unit.items.map (·.passing place given) }

end Passing

section Unchanged

variable {given : List Expr}

@[simp] theorem Decl.passing_none (decl : Decl) : decl.passing none given = decl := by simp [Decl.passing]

mutual

@[simp] theorem Stmt.passing_none (stmt : Stmt) : stmt.passing none given = stmt :=
  match stmt with
  | .block items _ => by rw [Stmt.passing, BlockItem.allPassing_none items]
  | .branch _ thenPart none _ => by rw [Stmt.passing, thenPart.passing_none, Expr.passing_none]
  | .branch _ thenPart (some elsePart) _ => by
    rw [Stmt.passing, thenPart.passing_none, elsePart.passing_none, Expr.passing_none]
  | .loop _ body _ => by rw [Stmt.passing, body.passing_none, Expr.passing_none]
  | .assign _ _ _ _ _ => by simp [Stmt.passing]
  | .expr value _ | .giveBack value _ => by cases value <;> simp [Stmt.passing]
  | .breakLoop _ | .continueLoop _ => rfl

theorem BlockItem.allPassing_none (items : List BlockItem) : BlockItem.allPassing none given items = items :=
  match items with
  | [] => rfl
  | first :: rest => by rw [BlockItem.allPassing, first.passing_none, BlockItem.allPassing_none rest]

theorem BlockItem.passing_none (item : BlockItem) : item.passing none given = item :=
  match item with
  | .decl _ => by rw [BlockItem.passing, Decl.passing_none]
  | .stmt statement => by rw [BlockItem.passing, statement.passing_none]

end

theorem Item.passing_none (item : Item) : item.passing none given = item := by
  cases item <;> simp [Item.passing, FuncDef.passing, BlockItem.allPassing_none]

end Unchanged

/-! ## Carriers -/

/-- Words that do not go on with a variable before them: they start with a sign, but with no index and
with no initializer in braces. -/
def Ends (words : List Word) : Prop :=
  ∀ word rest, words = word :: rest → word.1.isSign = true ∧ word.1 ≠ .leftBracket ∧
    (word.1 = .assign → ∀ next ∈ rest.head?, next.1 ≠ .leftBrace)

theorem Ends.of_kind {word : Word} {rest : List Word} (found : word.1 = kind)
    (ends : kind.isSign = true ∧ kind ≠ .leftBracket ∧ kind ≠ .assign) : Ends (word :: rest) := by
  intro first others split
  obtain ⟨rfl, rfl⟩ := List.cons.inj split
  subst found
  exact ⟨ends.1, ends.2.1, fun assigns => absurd assigns ends.2.2⟩

theorem Ends.assign {sign : Token} {after : List Word} (assigns : sign.kind = .assign) (inside : ExprAt 1 value expr) :
    Ends (wordOf sign :: (value.map wordOf ++ after)) := by
  obtain ⟨first, _, rfl, starts⟩ := Parser.ExprAt_starts inside
  intro word others split
  obtain ⟨rfl, rfl⟩ := List.cons.inj split
  have isSign : (wordOf sign).1.isSign = true := by
    rw [wordOf, assigns]
    rfl
  refine ⟨isSign, by simp [wordOf, assigns], fun _ next head => ?_⟩
  obtain rfl : wordOf first = next := by simpa using head
  rintro opens
  rw [show first.kind = .leftBrace from opens] at starts
  revert starts
  decide

namespace Grammar

/-- A mark is before tokens. -/
def Led (kind : TokenKind) (form : Form) (given : List Expr) (tokens : List Token) : Prop :=
  ∃ mark rest, tokens = mark :: rest ∧ mark.kind = kind ∧ form given rest

/-- A mark is between tokens. -/
def Split (form : Form) (kind : TokenKind) (form' : Form) (given : List Expr) (tokens : List Token) : Prop :=
  ∃ left mark right, tokens = left ++ mark :: right ∧ form given left ∧ mark.kind = kind ∧ form' given right

/-- What tokens become, for some exchange of them: the call at a place is given other arguments, and definitions of
variables are changed. -/
structure Carrier (place : Option Span) (change : VarDef → VarDef) (Fine : VarDef → Prop) where
  Takes : List Node → List Token → Form → Prop
  mono {nodes : List Node} {tokens : List Token} {form form' : Form} :
    Takes nodes tokens form → (∀ given tokens', form given tokens' → form' given tokens') → Takes nodes tokens form'
  above {node : Node} {tokens : List Token} {form : Form} : Takes node.children tokens form →
    (∀ reference arguments span, node ≠ .expr (.call reference arguments span)) → Takes [node] tokens form
  nil : Takes [] [] fun _ tokens' => tokens' = []
  sign {nodes : List Node} {mark : Token} {rest : List Token} {kind : TokenKind} {form : Form} : mark.kind = kind →
    kind.isSign = true → Takes nodes rest form → Takes nodes (mark :: rest) (Led kind form)
  keyword {nodes : List Node} {mark : Token} {rest : List Token} {kind : TokenKind} {form : Form} : mark.kind = kind →
    kind.isKeyword = true →
    (∃ first more, rest = first :: more ∧ first.kind ≠ .leftBracket) → Takes nodes rest form →
    Takes nodes (mark :: rest) (Led kind form)
  part {nodes nodes' : List Node} {tokens rest : List Token} {mark : Token} {kind : TokenKind}
    {form form' : Form} : Nest true (tokens.map wordOf) → Carries place nodes tokens form →
    mark.kind = kind → (∀ after, Ends ((mark :: rest).map wordOf ++ after)) → Takes nodes' rest form' →
    Takes (nodes ++ nodes') (tokens ++ mark :: rest) (Split form kind form')
  join {nodes nodes' : List Node} {tokens tokens' : List Token} {form form' : Form} :
    Takes nodes tokens form → tokens = [] ∨ EndsMarked tokens → Takes nodes' tokens' form' →
    Takes (nodes ++ nodes') (tokens ++ tokens') fun given all =>
      ∃ left right, all = left ++ right ∧ form given left ∧ form' given right
  defs {vars : List VarDef} {tokens : List Token} {stop : Token} : Separated Definition tokens vars →
    (∀ var ∈ vars, Fine var) → stop.kind = .semicolon →
    Takes (vars.map .varDef) (tokens ++ [stop]) fun given all => ∃ left stop' vars', all = left ++ [stop'] ∧
      Separated Definition left vars' ∧ stop'.kind = .semicolon ∧
      vars'.map VarDef.shape = vars.map fun var => (change (var.passing place given)).shape

namespace Carrier

variable {place : Option Span} {change : VarDef → VarDef} {Fine : VarDef → Prop} {vars : List VarDef}
  {form : Form} {nodes : List Node} {opening closing stop : Token} (carrier : Carrier place change Fine)

theorem isKeyword_of_baseType {type : BaseType} (typed : BaseType.ofKind? kind = some type) :
    kind.isKeyword = true := by
  cases kind <;> first | rfl | cases typed

theorem separated_starts (derived : Separated Definition tokens vars) :
    ∃ first more, tokens = first :: more ∧ first.kind = .identifier := by
  have definition : ∀ {tokens : List Token} {var : VarDef}, Definition tokens var →
      ∃ first more, tokens = first :: more ∧ first.kind = .identifier := by
    intro tokens var derived
    cases derived with
    | plain named => exact ⟨_, _, rfl, named⟩
    | initialized named => exact ⟨_, _, rfl, named⟩
  cases derived with
  | single first => exact definition first
  | more first =>
    obtain ⟨name, _, rfl, named⟩ := definition first
    exact ⟨name, _, rfl, named⟩

theorem not_bracket_of_expr (inside : ExprAt 1 tokens expr) :
    ∃ first more, tokens ++ rest = first :: more ∧ first.kind ≠ .leftBracket := by
  obtain ⟨first, _, rfl, starts⟩ := Parser.ExprAt_starts inside
  exact ⟨first, _, rfl, fun opens => by rw [opens] at starts; revert starts; decide⟩

theorem not_bracket_of_statement {stmt : Stmt} (derived : Statement tokens stmt) :
    ∃ first more, tokens = first :: more ∧ first.kind ≠ .leftBracket := by
  obtain ⟨first, more, rfl, starts⟩ := Parser.Statement_starts derived
  exact ⟨first, more, rfl, fun opens => by rw [opens] at starts; revert starts; decide⟩

theorem declaring {decl : Decl} (derived : Declaring tokens decl) (fine : ∀ var ∈ decl.defs, Fine var) :
    carrier.Takes [.decl decl] tokens fun given tokens' =>
      ∃ decl', Declaring tokens' decl' ∧ decl'.shape id = (decl.passing place given).shape change := by
  have starts : ∀ {tokens : List Token} {vars : List VarDef} {stop : Token}, Separated Definition tokens vars →
      ∃ first more, tokens ++ [stop] = first :: more ∧ first.kind ≠ .leftBracket := by
    intro tokens vars stop inside
    obtain ⟨first, _, rfl, named⟩ := separated_starts inside
    exact ⟨first, _, rfl, by simp [named]⟩
  cases derived with
  | plain typed inside stops =>
    refine carrier.above (carrier.mono (carrier.keyword rfl (isKeyword_of_baseType typed) (starts inside)
      (carrier.defs inside fine stops)) ?_) (by simp)
    rintro given _ ⟨type', _, rfl, kind', left, stop', vars', rfl, derived', stops', shapes⟩
    refine ⟨_, .plain (kind' ▸ typed) derived' stops', ?_⟩
    simp [Decl.shape, Decl.passing, shapes]
  | const constant typed inside stops =>
    have typeWord : ∀ {kind : TokenKind} {type : BaseType}, BaseType.ofKind? kind = some type →
        kind ≠ .leftBracket := by
      rintro kind type typed rfl
      cases typed
    refine carrier.above (carrier.mono (carrier.keyword constant rfl ⟨_, _, rfl, typeWord typed⟩ (carrier.keyword rfl
      (isKeyword_of_baseType typed) (starts inside) (carrier.defs inside fine stops))) ?_) (by simp)
    rintro given _ ⟨_, _, rfl, constant', _, _, rfl, kind', _, _, _, rfl, derived', stops', shapes⟩
    refine ⟨_, .const constant' (kind' ▸ typed) derived' stops', ?_⟩
    simp [Decl.shape, Decl.passing, shapes]

/-! ## Statements -/

/-- Tokens become those of a statement. -/
def AsStmt (place : Option Span) (change : VarDef → VarDef) (stmt : Stmt) (given : List Expr) (tokens : List Token) :
    Prop :=
  ∃ stmt', Statement tokens stmt' ∧ stmt'.shape id = (stmt.passing place given).shape change

def AsItems (place : Option Span) (change : VarDef → VarDef) (items : List BlockItem) (given : List Expr)
    (tokens : List Token) : Prop :=
  ∃ items', Items tokens items' ∧
    BlockItem.shapes id items' = BlockItem.shapes change (BlockItem.allPassing place given items)

/-- An expression with a mark behind it. -/
theorem before (inside : ExprAt 1 tokens expr) (found : stop.kind = kind) (after : carrier.Takes nodes rest form)
    (stops : kind.isSign = true ∧ kind ≠ .leftBracket ∧ kind ≠ .assign) :
    carrier.Takes (.expr expr :: nodes) (tokens ++ stop :: rest) (Split (AsExpr place 1 expr) kind form) :=
  carrier.part inside.nest.allow inside.carries found (fun _ => .of_kind found stops) after

private theorem keyworded {keyword : Token} {stmt : Stmt} (found : keyword.kind = kind)
    (stops : stop.kind = .semicolon) (isKeyword : kind.isKeyword = true) (bare : (Node.stmt stmt).children = [])
    (again : ∀ keyword' stop' : Token, keyword'.kind = kind → stop'.kind = .semicolon →
      ∃ stmt', Statement [keyword', stop'] stmt' ∧ ∀ given, stmt'.shape id = (stmt.passing place given).shape change) :
    carrier.Takes [.stmt stmt] [keyword, stop] (AsStmt place change stmt) := by
  refine carrier.above ?_ (by simp)
  rw [bare]
  refine carrier.mono (carrier.keyword found isKeyword ⟨stop, [], rfl, by simp [stops]⟩
    (carrier.sign stops rfl carrier.nil)) ?_
  rintro given _ ⟨keyword', _, rfl, found', stop', _, rfl, stops', rfl⟩
  obtain ⟨stmt', derived', shape⟩ := again keyword' stop' found' stops'
  exact ⟨stmt', derived', shape given⟩

private theorem conditional {keyword : Token} {condition : Expr} (found : keyword.kind = kind)
    (opens : opening.kind = .leftParen) (inside : ExprAt 1 tokens condition) (closes : closing.kind = .rightParen)
    (after : carrier.Takes nodes rest form) (isKeyword : kind.isKeyword = true) :
    carrier.Takes (.expr condition :: nodes) (keyword :: opening :: (tokens ++ closing :: rest))
      (Led kind (Led .leftParen (Split (AsExpr place 1 condition) .rightParen form))) :=
  carrier.keyword found isKeyword ⟨opening, _, rfl, by simp [opens]⟩
    (carrier.sign opens rfl (carrier.before inside closes after (by decide)))

private theorem braced {items : List BlockItem} (opens : opening.kind = .leftBrace) (derived : Items tokens items)
    (inside : carrier.Takes (items.map (·.node)) tokens (AsItems place change items))
    (closes : closing.kind = .rightBrace) (span : Span) :
    carrier.Takes [.stmt (.block items span)] (opening :: tokens ++ [closing]) fun given tokens' =>
      ∃ opening' inside' closing', tokens' = opening' :: inside' ++ [closing'] ∧ opening'.kind = .leftBrace ∧
        AsItems place change items given inside' ∧ closing'.kind = .rightBrace := by
  have joined := carrier.join inside derived.endsMarked (carrier.sign closes rfl carrier.nil)
  rw [append_nil] at joined
  refine carrier.above (carrier.mono (carrier.sign opens rfl joined) ?_) (by simp)
  rintro given _ ⟨opening', _, rfl, opens', inside', _, rfl, formed, closing', _, rfl, closes', rfl⟩
  exact ⟨opening', inside', closing', rfl, opens', formed, closes'⟩

theorem endsMarked_of_statement {stmt : Stmt} (derived : Statement tokens stmt) : tokens = [] ∨ EndsMarked tokens := by
  have ends := (Items.stmt derived .nil).endsMarked
  rwa [append_nil] at ends

theorem items {list : List BlockItem} (derived : Items tokens list)
    (fine : ∀ var ∈ BlockItem.allDefs list, Fine var) :
    carrier.Takes (list.map (·.node)) tokens (AsItems place change list) := by
  induction derived using Items.rec (motive_1 := fun tokens stmt _ =>
    (∀ var ∈ stmt.defs, Fine var) → carrier.Takes [.stmt stmt] tokens (AsStmt place change stmt)) with
  | @assign target value sign stop _ _ _ _ derived assigns inside stops =>
    have between : ∀ after, Ends ((sign :: (value ++ [stop])).map wordOf ++ after) := by
      intro after
      rw [map_cons, cons_append, map_append, append_assoc]
      exact .assign assigns inside
    rw [append_assoc, cons_append]
    refine carrier.above (carrier.mono (carrier.part derived.exprAt.nest.allow derived.carries assigns between
      (carrier.before inside stops carrier.nil (by decide))) ?_) (by simp)
    rintro given _ ⟨_, _, _, rfl, ⟨reference', indices', span', derived', sameReference, shapes⟩, assigns',
      _, stop', _, rfl, ⟨expr', inside', shape⟩, stops', rfl⟩
    refine ⟨.assign reference' indices' span' expr' (span'.through stop'.span), ?_, ?_⟩
    · have statement := Statement.assign derived' assigns' inside' stops'
      rwa [append_assoc, cons_append] at statement
    · rw [Stmt.passing, Stmt.shape, Stmt.shape, sameReference, shapes, shape]
  | expr inside stops =>
    refine carrier.above (carrier.mono (carrier.before inside stops carrier.nil (by decide)) ?_) (by simp)
    rintro given _ ⟨_, _, _, rfl, ⟨_, derived', shape⟩, stops', rfl⟩
    exact ⟨_, .expr derived' stops', by simp [Stmt.passing, Stmt.shape, shape]⟩
  | empty stops =>
    refine carrier.above (carrier.mono (carrier.sign stops rfl carrier.nil) ?_) (by simp)
    rintro given _ ⟨_, _, rfl, stops', rfl⟩
    exact ⟨_, .empty stops', rfl⟩
  | block opens derived closes ih fine =>
    refine carrier.mono (carrier.braced opens derived (ih fine) closes _) ?_
    rintro given _ ⟨_, _, _, rfl, opens', ⟨_, derived', shapes⟩, closes'⟩
    exact ⟨_, .block opens' derived' closes', by rw [Stmt.passing, Stmt.shape, Stmt.shape, shapes]⟩
  | branch found opens inside closes _ ih fine =>
    refine carrier.above (carrier.mono (carrier.conditional found opens inside closes (ih fine) rfl) ?_) (by simp)
    rintro given _ ⟨_, _, rfl, found', _, _, rfl, opens', _, _, _, rfl, ⟨_, derived', shape⟩, closes',
      _, derivedThen, sameThen⟩
    refine ⟨_, .branch found' opens' derived' closes' derivedThen, ?_⟩
    rw [Stmt.passing, Stmt.shape, Stmt.shape, shape, sameThen]
  | branchElse found opens inside closes derivedThen otherwise derivedElse thenHypothesis elseHypothesis fine =>
    obtain ⟨fineThen, fineElse⟩ := forall_mem_append.mp fine
    have both := carrier.join (thenHypothesis fineThen) (endsMarked_of_statement derivedThen)
      (carrier.keyword otherwise rfl (not_bracket_of_statement derivedElse) (elseHypothesis fineElse))
    simp only [append_assoc, cons_append]
    refine carrier.above (carrier.mono (carrier.conditional found opens inside closes both rfl) ?_) (by simp)
    rintro given _ ⟨keyword', _, rfl, found', _, _, rfl, opens', _, _, _, rfl, ⟨condition', derived', shape⟩, closes',
      _, _, rfl, ⟨thenPart', derivedThen', sameThen⟩, _, _, rfl, otherwise', elsePart', derivedElse', sameElse⟩
    refine ⟨.branch condition' thenPart' (some elsePart') (keyword'.span.through elsePart'.span), ?_, ?_⟩
    · have statement := Statement.branchElse found' opens' derived' closes' derivedThen' otherwise' derivedElse'
      simpa only [append_assoc, cons_append] using statement
    · rw [Stmt.passing, Stmt.shape, Stmt.shape, shape, sameThen, sameElse]
  | loop found opens inside closes _ ih fine =>
    refine carrier.above (carrier.mono (carrier.conditional found opens inside closes (ih fine) rfl) ?_) (by simp)
    rintro given _ ⟨_, _, rfl, found', _, _, rfl, opens', _, _, _, rfl, ⟨_, derived', shape⟩, closes',
      _, derivedBody, sameBody⟩
    refine ⟨_, .loop found' opens' derived' closes' derivedBody, ?_⟩
    rw [Stmt.passing, Stmt.shape, Stmt.shape, shape, sameBody]
  | breakLoop found stops =>
    exact carrier.keyworded found stops rfl rfl fun _ _ found' stops' => ⟨_, .breakLoop found' stops', fun _ => rfl⟩
  | continueLoop found stops =>
    exact carrier.keyworded found stops rfl rfl fun _ _ found' stops' => ⟨_, .continueLoop found' stops', fun _ => rfl⟩
  | giveNothing found stops =>
    exact carrier.keyworded found stops rfl rfl fun _ _ found' stops' => ⟨_, .giveNothing found' stops', fun _ => rfl⟩
  | giveBack found inside stops =>
    refine carrier.above (carrier.mono (carrier.keyword found rfl (not_bracket_of_expr inside)
      (carrier.before inside stops carrier.nil (by decide))) ?_) (by simp)
    rintro given _ ⟨_, _, rfl, found', _, _, _, rfl, ⟨_, derived', shape⟩, stops', rfl⟩
    exact ⟨_, .giveBack found' derived' stops', by simp [Stmt.passing, Stmt.shape, shape]⟩
  | nil =>
    refine carrier.mono carrier.nil ?_
    rintro given _ rfl
    exact ⟨[], .nil, rfl⟩
  | decl declares _ ih =>
    obtain ⟨fineDecl, fineRest⟩ := forall_mem_append.mp fine
    refine carrier.mono (carrier.join (carrier.declaring declares fineDecl) (.inr declares.endsMarked) (ih fineRest)) ?_
    rintro given _ ⟨_, _, rfl, ⟨_, derived', shape⟩, _, derivedRest, shapes⟩
    refine ⟨_, .decl derived' derivedRest, ?_⟩
    simp only [BlockItem.allPassing, BlockItem.shapes, BlockItem.passing, BlockItem.shape, shape, shapes]
  | stmt derived _ statementHypothesis ih =>
    obtain ⟨fineStmt, fineRest⟩ := forall_mem_append.mp fine
    refine carrier.mono (carrier.join (statementHypothesis fineStmt) (endsMarked_of_statement derived) (ih fineRest)) ?_
    rintro given _ ⟨_, _, rfl, ⟨_, derived', shape⟩, _, derivedRest, shapes⟩
    refine ⟨_, .stmt derived' derivedRest, ?_⟩
    simp only [BlockItem.allPassing, BlockItem.shapes, BlockItem.passing, BlockItem.shape, shape, shapes]

/-! ## Functions and programs -/

theorem parameter_nest {param : Param} (derived : Parameter tokens param) : Nest true (tokens.map wordOf) := by
  have typed : ∀ {kind : TokenKind} {type : BaseType}, BaseType.ofKind? kind = some type → kind.isPlain = true := by
    intro kind type found
    cases kind <;> first | rfl | cases found
  cases derived with
  | plain type named => exact .plain (typed type) (.plain (by rw [named]; rfl) .nil)
  | array type named opens closes inside =>
    refine .plain (typed type) (.plain (by rw [named]; rfl) ?_)
    exact .enclosed (by rw [opens, closes]; exact .bracket) .nil inside.nest.allow

theorem parameters_nest {params : List Param} (derived : Parameters tokens params) :
    Nest true (tokens.map wordOf) := by
  cases derived with
  | none => exact .nil
  | some inside =>
    induction inside with
    | single first => exact parameter_nest first
    | more first separates _ ih =>
      rw [map_append, map_cons]
      refine (parameter_nest first).append ?_
      rw [wordOf, separates]
      exact .comma ih

theorem function {func : FuncDef} (derived : Function tokens func)
    (fine : ∀ var ∈ BlockItem.allDefs func.body, Fine var) :
    carrier.Takes [.func func] tokens fun given tokens' =>
      ∃ func', Function tokens' func' ∧ func'.shape id = (func.passing place given).shape change := by
  cases derived with
  | @mk type name opening closing bodyOpening bodyClosing params body returnType _ _ typed named opens inside
      closes bodyOpens derivedBody bodyCloses =>
    have keyword : ∀ {kind : TokenKind}, ReturnType.ofKind? kind = some returnType → kind.isKeyword = true := by
      intro kind typed
      cases kind <;> first | rfl | cases typed
    have split : type :: name :: opening :: params ++ closing :: bodyOpening :: body ++ [bodyClosing] =
        type :: ([name] ++ opening :: (params ++ closing :: (bodyOpening :: body ++ [bodyClosing]))) := by simp
    have behind := carrier.part (parameters_nest inside) inside.carries closes (fun _ => .of_kind closes (by decide))
      (carrier.braced bodyOpens derivedBody (carrier.items derivedBody fine) bodyCloses
        (bodyOpening.span.through bodyClosing.span))
    have fromName := carrier.part (.single (by rw [named]; rfl)) (Carries.keep named) opens
      (fun _ => .of_kind opens (by decide)) behind
    rw [split]
    refine carrier.above (carrier.mono (carrier.keyword rfl (keyword typed) ⟨name, _, rfl, by simp [named]⟩
      fromName) ?_) (by simp)
    rintro given _ ⟨_, _, rfl, kind', _, _, _, rfl, ⟨_, rfl, named', same⟩, opens', _, _, _, rfl,
      ⟨_, derivedParams, sameParams⟩, closes', _, _, _, rfl, bodyOpens', ⟨_, derivedItems, sameItems⟩, bodyCloses'⟩
    have defines := Function.mk (kind' ▸ typed) named' opens' derivedParams closes' bodyOpens' derivedItems bodyCloses'
    simp only [append_assoc, cons_append, nil_append] at defines ⊢
    refine ⟨_, defines, ?_⟩
    rw [FuncDef.passing, FuncDef.shape, FuncDef.shape, sameParams, sameItems, same]

theorem endsMarked_of_function {func : FuncDef} (derived : Function tokens func) : EndsMarked tokens := by
  cases derived with
  | mk _ _ _ _ _ _ _ bodyCloses => exact ⟨_, _, rfl, by rw [bodyCloses]; rfl⟩

/-- Programs become programs. -/
theorem topLevel {list : List Item} (derived : TopLevel tokens list)
    (fine : ∀ item ∈ list, ∀ var ∈ item.defs, Fine var) :
    carrier.Takes (list.map (·.node)) tokens fun given tokens' => ∃ list', TopLevel tokens' list' ∧
      list'.map (·.shape id) = (list.map (·.passing place given)).map (·.shape change) := by
  induction derived with
  | nil =>
    refine carrier.mono carrier.nil ?_
    rintro given _ rfl
    exact ⟨[], .nil, rfl⟩
  | decl declares _ ih =>
    obtain ⟨fineFirst, fineRest⟩ := forall_mem_cons.mp fine
    refine carrier.mono (carrier.join (carrier.declaring declares fineFirst) (.inr declares.endsMarked)
      (ih fineRest)) ?_
    rintro given _ ⟨_, _, rfl, ⟨_, derived', shape⟩, _, derivedRest, shapes⟩
    refine ⟨_, .decl derived' derivedRest, ?_⟩
    rw [map_cons, map_cons, map_cons, shapes, Item.passing, Item.shape, Item.shape, shape]
  | func defines _ ih =>
    obtain ⟨fineFirst, fineRest⟩ := forall_mem_cons.mp fine
    refine carrier.mono (carrier.join (carrier.function defines fineFirst) (.inr (endsMarked_of_function defines))
      (ih fineRest)) ?_
    rintro given _ ⟨_, _, rfl, ⟨_, derived', shape⟩, _, derivedRest, shapes⟩
    refine ⟨_, .func derived' derivedRest, ?_⟩
    rw [map_cons, map_cons, map_cons, shapes, Item.passing, Item.shape, Item.shape, shape]

end Carrier

end Grammar

end SysYTools
