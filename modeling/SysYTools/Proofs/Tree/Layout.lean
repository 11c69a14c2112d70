import SysYTools.Analysis
import SysYTools.Proofs.Token.Cut
import SysYTools.Proofs.Tree.Decision
import SysYTools.Proofs.Tree.Walk

/-!
Where the parts of a tree stand. A derivation gives every part of its tree a span that starts at one of its tokens
and ends at one, and the tokens of a text follow each other. So a part lies within the part above it, after the words
of that part, and the parts right below a node follow each other. A walk over the tree meets no place twice. Integer
literals keep the form that their tokens have.

Every part has a derivation of its own, from tokens that stand together among those of the whole. So what the
derivation of a node says about that node alone holds of all parts of a program.
-/

namespace SysYTools

open List

variable {node : Node} {tokens : List Token} {items : List Item}
variable {more : List Token} {closing opening : Token} {expr : Expr} {file : String} {indices : List Expr}
  {level : Nat} {text : Text} {unit : CompUnit}

/-! ## Nodes in their places -/

namespace Node

/-- The spans of the words that a node has of its own: its name, and for a function also its type. -/
def words : Node → List Span
  | .varDef var => [var.nameSpan]
  | .param parameter => [parameter.nameSpan]
  | .func function => [function.typeSpan, function.nameSpan]
  | .expr (.lval reference _ _) | .expr (.call reference _ _) => [reference.span]
  | _ => []

/-- The text of an integer literal. -/
def literal? : Node → Option String
  | .expr (.intLit value _) => some value
  | _ => none

/-- A node reaches over its words and its children. Its words come first, and its children follow each
other. -/
structure Fits (node : Node) : Prop where
  ordered : node.span.Ordered
  inside : ∀ child ∈ node.children, child.span.Inside node.span
  sorted : node.children.Pairwise fun left right => left.span.Before right.span
  word : ∀ word ∈ node.words, word.Ordered ∧ word.Inside node.span ∧ ∀ child ∈ node.children, word.Before child.span
  literal : ∀ value ∈ node.literal?, Lexis.IsInteger value.toList

/-- A node and all parts below it stand in their places. -/
inductive Laid : Node → Prop where
  | mk {node : Node} : node.Fits → (∀ child ∈ node.children, child.Laid) → node.Laid

theorem Laid.fits {node : Node} : node.Laid → node.Fits
  | .mk fits _ => fits

theorem Laid.child {node child : Node} (member : child ∈ node.children) : node.Laid → child.Laid
  | .mk _ children => children child member

/-- The nodes stand in their places and follow each other. -/
def Aligned (nodes : List Node) : Prop :=
  (∀ node ∈ nodes, node.Laid) ∧ nodes.Pairwise fun left right => left.span.Before right.span

theorem Laid.aligned : node.Laid → Aligned node.children
  | .mk fits children => ⟨children, fits.sorted⟩

section Sites

variable {ancestors : List Node} {node : Node}

private theorem nodup_flatMap_sites {nodes : List Node}
    (sorted : nodes.Pairwise fun left right => left.span.Before right.span)
    (each : ∀ node ∈ nodes, (node.sitesUnder ancestors).Nodup ∧ ∀ site ∈ node.sitesUnder ancestors,
      site.node.span.Ordered ∧ site.node.span.Inside node.span) : (nodes.flatMap (·.sitesUnder ancestors)).Nodup := by
  refine nodup_flatMap.mpr ⟨fun node member => (each node member).1, ?_⟩
  refine sorted.imp_of_mem fun {left right} isLeft isRight order site inLeft inRight => ?_
  obtain ⟨ordered, insideLeft⟩ := (each left isLeft).2 site inLeft
  obtain ⟨-, insideRight⟩ := (each right isRight).2 site inRight
  exact ordered.not_before ((order.of_inside_left insideLeft).of_inside_right insideRight)

private theorem self_notMem_below : ⟨node, ancestors⟩ ∉ node.children.flatMap (sitesUnder (node :: ancestors)) := by
  intro member
  obtain ⟨_, -, member⟩ := mem_flatMap.mp member
  have longer := (suffix_ancestors member).length_le
  simp at longer

theorem Laid.sites_nodup (laid : node.Laid) (ancestors : List Node) :
    (node.sitesUnder ancestors).Nodup ∧ ∀ site ∈ node.sitesUnder ancestors,
      site.node.span.Ordered ∧ site.node.span.Inside node.span := by
  induction laid generalizing ancestors with
  | @mk node fits _ ih =>
    have below := fun child isChild => ih child isChild (node :: ancestors)
    rw [sitesUnder_eq]
    refine ⟨nodup_cons.mpr ⟨self_notMem_below, nodup_flatMap_sites fits.sorted below⟩, ?_⟩
    refine forall_mem_cons.mpr ⟨⟨fits.ordered, .refl _⟩, fun site member => ?_⟩
    obtain ⟨child, isChild, member⟩ := mem_flatMap.mp member
    obtain ⟨ordered, inside⟩ := (below child isChild).2 site member
    exact ⟨ordered, inside.trans (fits.inside child isChild)⟩

theorem Aligned.sites_nodup {unit : CompUnit} (aligned : Aligned (Node.unit unit).children) :
    (Node.unit unit).sites.Nodup := by
  rw [sites, sitesUnder_eq]
  exact nodup_cons.mpr ⟨self_notMem_below, nodup_flatMap_sites aligned.2 fun node isItem =>
    (aligned.1 node isItem).sites_nodup _⟩

end Sites

/-! ## Nodes and their derivations -/

open Grammar

/-- The derivation of a node, by its kind. Programs are not among these: their spans go beyond their tokens. -/
inductive Derived (tokens : List Token) : Node → Prop where
  | decl {decl : Decl} : Declaring tokens decl → Derived tokens (.decl decl)
  | varDef {var : VarDef} : Definition tokens var → Derived tokens (.varDef var)
  | initList {elements : List InitVal} {span : Span} :
      Initializer tokens (.list elements span) → Derived tokens (.initList elements span)
  | func {func : FuncDef} : Function tokens func → Derived tokens (.func func)
  | param {param : Param} : Parameter tokens param → Derived tokens (.param param)
  | stmt {stmt : Stmt} : Statement tokens stmt → Derived tokens (.stmt stmt)
  | expr {level : Nat} {expr : Expr} : ExprAt level tokens expr → Derived tokens (.expr expr)

/-- Some of the tokens, which stand together, are those of the node. -/
def DerivedIn (tokens : List Token) (node : Node) : Prop := ∃ inner, inner <:+: tokens ∧ node.Derived inner

theorem DerivedIn.mono (derived : node.DerivedIn tokens) (within : tokens <:+: more) : node.DerivedIn more := by
  obtain ⟨inner, inside, derived⟩ := derived
  exact ⟨inner, inside.trans within, derived⟩

end Node

namespace Grammar

/-! ## Tokens and what they span -/

/-- All tokens of one list stand before all tokens of another. -/
def Ahead (left right : List Token) : Prop := ∀ first ∈ left, ∀ second ∈ right, first.span.Before second.span

/-- A token has a character at least, and if it is an integer literal it has the form of one. -/
def Formed (token : Token) : Prop :=
  token.span.Ordered ∧ (token.kind = .integerLiteral → Lexis.IsInteger token.value.toList)

/-- The tokens follow each other. -/
def Sorted (tokens : List Token) : Prop :=
  tokens.Pairwise (fun left right => left.span.Before right.span) ∧ ∀ token ∈ tokens, Formed token

theorem sorted_append {left right : List Token} :
    Sorted (left ++ right) ↔ Sorted left ∧ Sorted right ∧ Ahead left right := by
  simp only [Sorted, Ahead, pairwise_append, forall_mem_append]
  tauto

theorem sorted_cons {token : Token} :
    Sorted (token :: tokens) ↔ Formed token ∧ Sorted tokens ∧ Ahead [token] tokens := by
  simp [Sorted, Ahead]
  tauto

/-- A span starts where one of the tokens starts and ends where one ends. -/
structure Anchors (tokens : List Token) (span : Span) : Prop where
  first : ∃ token ∈ tokens, span.first = token.span.first
  last : ∃ token ∈ tokens, span.last = token.span.last

theorem Anchors.token {token : Token} {tokens : List Token} (member : token ∈ tokens) : Anchors tokens token.span :=
  ⟨⟨token, member, rfl⟩, ⟨token, member, rfl⟩⟩

theorem Anchors.mono {span : Span} (anchors : Anchors tokens span) (subset : tokens ⊆ more) : Anchors more span := by
  obtain ⟨⟨first, isFirst, starts⟩, last, isLast, ends⟩ := anchors
  exact ⟨⟨first, subset isFirst, starts⟩, last, subset isLast, ends⟩

/-! ## Rows -/

/-- What stands in a row: a word, or a part of the tree. -/
inductive Landmark where
  | word (span : Span)
  | node (node : Node)

def Landmark.span : Landmark → Span
  | .word span => span
  | .node part => part.span

/-- Each of the landmarks starts at one of the tokens and ends at one, and all parts are derived from some of the
tokens. If the tokens follow each other, so do the landmarks, and the parts stand in their places. -/
structure Row (tokens : List Token) (marks : List Landmark) : Prop where
  derived : ∀ node, Landmark.node node ∈ marks → ∀ part ∈ node.walk, part.DerivedIn tokens
  anchors : ∀ mark ∈ marks, Anchors tokens mark.span
  ordered : Sorted tokens → ∀ mark ∈ marks, mark.span.Ordered
  laid : Sorted tokens → ∀ node, Landmark.node node ∈ marks → node.Laid
  follow : Sorted tokens → marks.Pairwise fun left right => left.span.Before right.span

namespace Row

variable {tokens left right : List Token} {first last : Landmark} {marks others : List Landmark} {node : Node}

theorem nil : Row [] [] := ⟨by simp, by simp, by simp, by simp, fun _ => .nil⟩

theorem token {token : Token} : Row [token] [.word token.span] := by
  refine ⟨by simp, ?_, fun sorted => ?_, by simp, fun _ => pairwise_singleton _ _⟩
  · rw [forall_mem_singleton]
    exact .token (mem_singleton_self token)
  · rw [forall_mem_singleton]
    exact (sorted.2 token (mem_singleton_self token)).1

theorem append (row : Row left marks) (further : Row right others) : Row (left ++ right) (marks ++ others) := by
  refine ⟨fun node member part isPart => ?_, ?_, fun sorted => ?_, fun sorted node member => ?_, fun sorted => ?_⟩
  · rcases mem_append.mp member with member | member
    · exact (row.derived node member part isPart).mono (prefix_append _ _).isInfix
    · exact (further.derived node member part isPart).mono (suffix_append _ _).isInfix
  · rw [forall_mem_append]
    exact ⟨fun mark member => (row.anchors mark member).mono (subset_append_left _ _),
      fun mark member => (further.anchors mark member).mono (subset_append_right _ _)⟩
  all_goals obtain ⟨sortedLeft, sortedRight, ahead⟩ := sorted_append.mp sorted
  · rw [forall_mem_append]
    exact ⟨row.ordered sortedLeft, further.ordered sortedRight⟩
  · rcases mem_append.mp member with member | member
    · exact row.laid sortedLeft node member
    · exact further.laid sortedRight node member
  · rw [pairwise_append]
    refine ⟨row.follow sortedLeft, further.follow sortedRight, fun first isFirst second isSecond => ?_⟩
    obtain ⟨last, lastMember, ends⟩ := (row.anchors first isFirst).last
    obtain ⟨start, startMember, starts⟩ := (further.anchors second isSecond).first
    rw [Span.Before, ends, starts]
    exact ahead last lastMember start startMember

theorem cons {token : Token} (row : Row tokens marks) : Row (token :: tokens) (.word token.span :: marks) :=
  append Row.token row

theorem sublist (row : Row tokens marks) (part : others.Sublist marks) : Row tokens others :=
  ⟨fun node member => row.derived node (part.subset member),
    fun mark member => row.anchors mark (part.subset member),
    fun sorted mark member => row.ordered sorted mark (part.subset member),
    fun sorted node member => row.laid sorted node (part.subset member),
    fun sorted => (row.follow sorted).sublist part⟩

theorem skip {token : Token} (row : Row tokens marks) : Row (token :: tokens) marks :=
  row.cons.sublist (sublist_cons_self _ _)

theorem first_le (row : Row tokens marks) (sorted : Sorted tokens) (starts : marks.head? = some first) :
    ∀ mark ∈ marks, first.span.first ≤ mark.span.first := by
  obtain ⟨_, rfl⟩ := head?_eq_some_iff.mp starts
  intro mark member
  rcases mem_cons.mp member with rfl | isLater
  · exact le_rfl
  · have order := (pairwise_cons.mp (row.follow sorted)).1 mark isLater
    exact (row.ordered sorted first mem_cons_self).trans order.le

theorem le_last (row : Row tokens marks) (sorted : Sorted tokens) (ends : marks.getLast? = some last) :
    ∀ mark ∈ marks, mark.span.last ≤ last.span.last := by
  obtain ⟨_, rfl⟩ := getLast?_eq_some_iff.mp ends
  intro mark member
  rcases mem_append.mp member with isEarlier | same
  · have order := (pairwise_append.mp (row.follow sorted)).2.2 mark isEarlier last
      (mem_singleton_self last)
    exact order.le.trans (row.ordered sorted last (by simp))
  · rw [mem_singleton.mp same]

/-- A part of the tree from the first to the last landmark of a row stands in its place, if its words and then
the parts below it stand in that row. -/
theorem whole (row : Row tokens marks) (derived : node.Derived tokens) (starts : marks.head? = some first)
    (ends : marks.getLast? = some last) (span : node.span = first.span.through last.span)
    (parts : (node.words.map Landmark.word ++ node.children.map Landmark.node).Sublist marks)
    (literal : node.literal? = none ∨
      ∃ token ∈ tokens, token.kind = .integerLiteral ∧ node.literal? = some token.value) : Row tokens [.node node] := by
  have below {child : Node} (isChild : child ∈ node.children) : Landmark.node child ∈ marks :=
    parts.subset (by simp [isChild])
  have isFirst := mem_of_head? starts
  have ordered (sorted : Sorted tokens) : node.span.Ordered := by
    rw [span]
    exact (row.ordered sorted first isFirst).trans (row.le_last sorted ends first isFirst)
  refine ⟨fun other isNode part isPart => ?_, ?_, fun sorted => ?_, fun sorted other isNode => ?_,
    fun _ => pairwise_singleton _ _⟩
  · -- The part itself has its derivation, and those below it have theirs in the row.
    cases mem_singleton.mp isNode
    rw [Node.walk_eq] at isPart
    rcases mem_cons.mp isPart with rfl | isPart
    · exact ⟨tokens, infix_rfl, derived⟩
    · obtain ⟨child, isChild, inChild⟩ := mem_flatMap.mp isPart
      exact row.derived child (below isChild) part inChild
  · rw [forall_mem_singleton, Landmark.span, span]
    exact ⟨(row.anchors first isFirst).first, (row.anchors last (mem_of_getLast? ends)).last⟩
  · rw [forall_mem_singleton]
    exact ordered sorted
  cases mem_singleton.mp isNode
  have inside (mark : Landmark) (member : mark ∈ marks) : mark.span.Inside node.span := by
    rw [span]
    exact ⟨row.first_le sorted starts mark member, row.le_last sorted ends mark member⟩
  obtain ⟨-, childrenFollow, wordsFirst⟩ := pairwise_append.mp ((row.follow sorted).sublist parts)
  rw [pairwise_map] at childrenFollow
  refine .mk ⟨ordered sorted, fun child isChild => inside _ (below isChild), childrenFollow, fun word isWord => ?_,
    fun value isValue => ?_⟩ fun child isChild => row.laid sorted child (below isChild)
  · have member : Landmark.word word ∈ marks := parts.subset (by simp [isWord])
    exact ⟨row.ordered sorted _ member, inside _ member, fun child isChild =>
      wordsFirst _ (mem_map_of_mem isWord) _ (mem_map_of_mem isChild)⟩
  · obtain plain | ⟨token, isToken, kind, written⟩ := literal
    · cases plain.symm.trans isValue
    · cases written.symm.trans isValue
      exact (sorted.2 token isToken).2 kind

theorem enclosed {opening closing : Token} (row : Row tokens (node.children.map .node))
    (derived : node.Derived (opening :: tokens ++ [closing]))
    (span : node.span = opening.span.through closing.span) (wordless : node.words = [])
    (plain : node.literal? = none) : Row (opening :: tokens ++ [closing]) [.node node] := by
  refine (row.cons.append .token).whole derived rfl getLast?_concat span ?_ (.inl plain)
  rw [wordless]
  exact (sublist_append_left _ _).cons _

end Row

/-! ## Expressions -/

/-- The indices stand in a row that ends with their last bracket, or with the start if there are none. -/
def IndicesRow (start : Span) (tokens : List Token) (indices : List Expr) (stop : Span) : Prop :=
  ∃ marks, Row tokens marks ∧ ((indices.map Node.expr).map Landmark.node).Sublist marks ∧
    (.word start :: marks).getLast? = some (.word stop)

theorem IndicesRow.cons {start stop : Span} {tokens : List Token} {index : Expr}
    (row : Row tokens [.node (.expr index)]) (further : IndicesRow closing.span more indices stop) :
    IndicesRow start (opening :: tokens ++ closing :: more) (index :: indices) stop := by
  obtain ⟨_, further, parts, ends⟩ := further
  refine ⟨_, row.cons.append further.cons, ?_, ?_⟩
  · exact ((parts.cons _).cons_cons _).cons _
  · simpa [getLast?_cons_cons] using ends

theorem ExprAt.row {tokens : List Token} (derived : ExprAt level tokens expr) : Row tokens [.node (.expr expr)] := by
  induction derived using ExprAt.rec
    (motive_2 := fun start tokens indices stop _ => IndicesRow start tokens indices stop)
    (motive_3 := fun tokens exprs _ => Row tokens ((exprs.map .expr).map .node)) with
  | tighter _ _ row => exact row
  | binary left found right rowLeft rowRight =>
    exact (rowLeft.append rowRight.cons).whole (.expr (.binary left found right)) rfl rfl rfl
      (by simp [Node.words, Node.children]) (.inl rfl)
  | unary found operand row =>
    exact row.cons.whole (.expr (.unary found operand)) rfl rfl rfl (sublist_cons_self _ _) (.inl rfl)
  | intLit found =>
    exact Row.token.whole (.expr (.intLit found)) rfl rfl rfl (by simp [Node.words, Node.children])
      (.inr ⟨_, mem_cons_self, found, rfl⟩)
  | floatLit found => exact Row.token.whole (.expr (.floatLit found)) rfl rfl rfl (nil_sublist _) (.inl rfl)
  | lval named inside row =>
    obtain ⟨_, row, parts, ends⟩ := row
    exact row.cons.whole (.expr (.lval named inside)) rfl ends rfl (parts.cons_cons _) (.inl rfl)
  | callNone named opens closes =>
    exact Row.token.cons.cons.whole (.expr (.callNone named opens closes)) rfl rfl rfl
      (singleton_sublist.mpr mem_cons_self) (.inl rfl)
  | call named opens inside closes row =>
    exact (row.skip.cons.append .token).whole (.expr (.call named opens inside closes)) rfl getLast?_concat rfl
      ((sublist_append_left _ _).cons_cons _) (.inl rfl)
  | paren _ _ _ row => exact (row.cons.append .token).sublist (by simp)
  | nil => exact ⟨[], .nil, .slnil, rfl⟩
  | cons _ _ _ _ row further => exact .cons row further
  | single _ row => exact row
  | more _ _ _ row further => exact row.append further.skip

theorem Indices.row {start stop : Span} (derived : Indices start tokens indices stop) :
    IndicesRow start tokens indices stop := by
  induction derived using Indices.rec (motive_1 := fun _ _ _ _ => True)
    (motive_3 := fun _ _ _ => True) with
  | nil => exact ⟨[], .nil, .slnil, rfl⟩
  | cons _ inside _ _ _ further => exact .cons inside.row further
  | _ => trivial

theorem ExprList.row {exprs : List Expr} (derived : ExprList tokens exprs) :
    Row tokens ((exprs.map .expr).map .node) := by
  induction derived using ExprList.rec (motive_1 := fun _ _ _ _ => True)
    (motive_2 := fun _ _ _ _ _ => True) with
  | single value => exact value.row
  | more value _ _ _ further => exact value.row.append further.skip
  | _ => trivial

/-! ## Declarations -/

theorem span_node_initVal (init : InitVal) : init.node.span = init.span := by
  cases init <;> rfl

theorem Initializer.row {tokens : List Token} {init : InitVal} (derived : Initializer tokens init) :
    Row tokens [.node init.node] := by
  induction derived using Initializer.rec
    (motive_2 := fun tokens inits _ => Row tokens ((inits.map (·.node)).map .node)) with
  | expr inside => exact inside.row
  | @empty opening closing opens closes =>
    exact @Row.enclosed [] _ opening closing .nil (.initList (.empty opens closes)) rfl rfl rfl
  | list opens inside closes row => exact Row.enclosed row (.initList (.list opens inside closes)) rfl rfl rfl
  | single _ row => exact row
  | more _ _ _ row further => exact row.append further.skip

theorem Separated.row {α : Type} {form : List Token → α → Prop} {tokens : List Token}
    {parts : List α} (derived : Separated form tokens parts) (node : α → Node)
    (row : ∀ tokens part, form tokens part → Row tokens [.node (node part)]) :
    Row tokens ((parts.map node).map .node) := by
  induction derived with
  | single formed => exact row _ _ formed
  | more formed _ _ further => exact (row _ _ formed).append further.skip

theorem Definition.row {tokens : List Token} {var : VarDef} (derived : Definition tokens var) :
    Row tokens [.node (.varDef var)] := by
  have whole : (Node.varDef var).Derived tokens := .varDef derived
  cases derived with
  | plain _ inside =>
    obtain ⟨marks, row, parts, ends⟩ := inside.row
    exact row.cons.whole whole rfl ends rfl (by simpa [Node.words, Node.children] using parts) (.inl rfl)
  | @initialized name sign dimTokens more dims stop init _ inside _ initializes =>
    obtain ⟨_, row, parts, -⟩ := inside.row
    refine (row.cons.append initializes.row.skip).whole whole rfl getLast?_concat ?_ ?_ (.inl rfl)
    · rw [Landmark.span, Landmark.span, span_node_initVal]
      rfl
    · simpa [Node.words, Node.children] using parts

theorem Declaring.row {decl : Decl} (derived : Declaring tokens decl) : Row tokens [.node (.decl decl)] := by
  have whole : (Node.decl decl).Derived tokens := .decl derived
  cases derived with
  | plain _ defines => exact Row.enclosed (defines.row .varDef fun _ _ => Definition.row) whole rfl rfl rfl
  | @const _ type _ tokens _ _ _ _ defines _ =>
    exact @Row.enclosed (type :: tokens) _ _ _ (defines.row .varDef fun _ _ => Definition.row).skip whole rfl rfl rfl

/-! ## Statements -/

theorem Items.row {tokens : List Token} {items : List BlockItem} (derived : Items tokens items) :
    Row tokens ((items.map (·.node)).map .node) := by
  induction derived using Items.rec (motive_1 := fun tokens stmt _ => Row tokens [.node (.stmt stmt)]) with
  | assign target sign value stop =>
    exact ((target.exprAt.row.append value.row.cons).append .token).whole (.stmt (.assign target sign value stop))
      rfl rfl rfl (by simp [Node.words, Node.children]) (.inl rfl)
  | expr inside stop =>
    exact (inside.row.append .token).whole (.stmt (.expr inside stop)) rfl rfl rfl (sublist_append_left _ _) (.inl rfl)
  | empty stop => exact Row.token.whole (.stmt (.empty stop)) rfl rfl rfl (nil_sublist _) (.inl rfl)
  | block opens inside closes row => exact Row.enclosed row (.stmt (.block opens inside closes)) rfl rfl rfl
  | branch keyword opens inside closes body row =>
    exact (inside.row.skip.cons.append row.skip).whole (.stmt (.branch keyword opens inside closes body))
      rfl rfl rfl (sublist_cons_self _ _) (.inl rfl)
  | branchElse keyword opens inside closes body mark other row rowElse =>
    exact ((inside.row.skip.cons.append row.skip).append rowElse.skip).whole
      (.stmt (.branchElse keyword opens inside closes body mark other)) rfl rfl rfl (sublist_cons_self _ _) (.inl rfl)
  | loop keyword opens inside closes body row =>
    exact (inside.row.skip.cons.append row.skip).whole (.stmt (.loop keyword opens inside closes body))
      rfl rfl rfl (sublist_cons_self _ _) (.inl rfl)
  | breakLoop keyword stop =>
    exact Row.token.cons.whole (.stmt (.breakLoop keyword stop)) rfl rfl rfl (nil_sublist _) (.inl rfl)
  | continueLoop keyword stop =>
    exact Row.token.cons.whole (.stmt (.continueLoop keyword stop)) rfl rfl rfl (nil_sublist _) (.inl rfl)
  | giveNothing keyword stop =>
    exact Row.token.cons.whole (.stmt (.giveNothing keyword stop)) rfl rfl rfl (nil_sublist _) (.inl rfl)
  | giveBack keyword inside stop => exact Row.enclosed inside.row (.stmt (.giveBack keyword inside stop)) rfl rfl rfl
  | nil => exact .nil
  | decl declares _ further => exact declares.row.append further
  | stmt _ _ row further => exact row.append further

theorem Statement.row {stmt : Stmt} (derived : Statement tokens stmt) : Row tokens [.node (.stmt stmt)] := by
  simpa [BlockItem.node] using (Items.stmt derived .nil).row

/-! ## Functions and programs -/

theorem Parameter.row {tokens : List Token} {param : Param} (derived : Parameter tokens param) :
    Row tokens [.node (.param param)] := by
  have whole : (Node.param param).Derived tokens := .param derived
  cases derived with
  | plain => exact Row.token.cons.whole whole rfl rfl rfl (sublist_cons_self _ _) (.inl rfl)
  | array _ _ _ _ inside =>
    obtain ⟨_, row, parts, ends⟩ := inside.row
    exact row.cons.cons.cons.cons.whole whole rfl ends rfl ((((parts.cons _).cons _).cons_cons _).cons _) (.inl rfl)

theorem Parameters.row {params : List Param} (derived : Parameters tokens params) :
    Row tokens ((params.map .param).map .node) := by
  cases derived with
  | none => exact .nil
  | some separated => exact separated.row .param fun _ _ => Parameter.row

theorem Function.row {func : FuncDef} (derived : Function tokens func) : Row tokens [.node (.func func)] := by
  have whole : (Node.func func).Derived tokens := .func derived
  cases derived with
  | @mk type name opening closing bodyOpening bodyClosing paramTokens body returnType params items
      _ _ _ parameters _ opens inside closes =>
    have block : Row (bodyOpening :: body ++ [bodyClosing])
        [.node (.stmt (.block items (bodyOpening.span.through bodyClosing.span)))] :=
      Row.enclosed inside.row (.stmt (.block opens inside closes)) rfl rfl rfl
    rw [append_assoc, cons_append] at whole ⊢
    exact (parameters.row.skip.cons.cons.append block.skip).whole whole rfl getLast?_concat rfl
      (by simp [Node.words, Node.children, FuncDef.block]) (.inl rfl)

theorem TopLevel.row (derived : TopLevel tokens items) : Row tokens ((items.map (·.node)).map .node) := by
  induction derived with
  | nil => exact .nil
  | decl declares _ further => exact declares.row.append further
  | func defines _ further => exact defines.row.append further

theorem TopLevel.aligned (derived : TopLevel tokens items)
    (sorted : Sorted tokens) : Node.Aligned (items.map (·.node)) := by
  have follow := derived.row.follow sorted
  rw [pairwise_map] at follow
  exact ⟨fun node member => derived.row.laid sorted node (mem_map_of_mem member), follow⟩

end Grammar

namespace Node.Derived

variable {tokens : List Token} {node : Node}

theorem row (derived : node.Derived tokens) : Grammar.Row tokens [.node node] := by
  cases derived with
  | decl declares => exact declares.row
  | varDef defines => exact defines.row
  | initList init => exact init.row
  | func defines => exact defines.row
  | param takes => exact takes.row
  | stmt stmt => exact stmt.row
  | expr value => exact value.row

theorem anchors_span (derived : node.Derived tokens) : Grammar.Anchors tokens node.span :=
  derived.row.anchors (.node node) (mem_singleton_self _)

end Node.Derived

namespace Grammar.TopLevel

variable {tokens : List Token} {program : CompUnit}

theorem of_mem_walk (derived : TopLevel tokens program.items) {part : Node}
    (member : part ∈ (Node.unit program).walk) : part = .unit program ∨ part.DerivedIn tokens := by
  rw [Node.walk_eq] at member
  rcases mem_cons.mp member with rfl | below
  · exact .inl rfl
  · obtain ⟨item, isItem, inItem⟩ := mem_flatMap.mp below
    exact .inr (derived.row.derived item (mem_map_of_mem isItem) part inItem)

theorem child_derived (derived : TopLevel tokens program.items) {child : Node}
    (member : node ∈ (Node.unit program).walk) (isChild : child ∈ node.children) : child.DerivedIn tokens := by
  rcases derived.of_mem_walk member with rfl | ⟨_, inside, derivedNode⟩
  · exact derived.row.derived child (mem_map_of_mem isChild) child child.self_mem_walk
  · exact (derivedNode.row.derived node (mem_singleton_self _) child
      (Node.mem_walk_of_child isChild child.self_mem_walk)).mono inside

end Grammar.TopLevel

section Source

open Grammar Lexis

/-- The tokens of a text that a program was read from, and where they stand. -/
structure CompUnit.Source (file : String) (text : Text) (unit : CompUnit) (words : List Token) :
    Prop where
  derived : TopLevel words unit.items
  nearest : ∀ item ∈ unit.items, item.NearestElse
  span : unit.span = ⟨file, 1, 1, (tokenAfter file text .endOfInput []).span.endLine,
    (tokenAfter file text .endOfInput []).span.endColumn⟩
  sorted : Sorted words
  stands : ∀ word ∈ words, ∃ before value, Stands file text word before value

theorem CompUnit.exists_source (parsed : CompUnit.ofText file text = .ok unit) :
    ∃ words, unit.Source file text words := by
  simp only [CompUnit.ofText, bind, Except.bind] at parsed
  split at parsed
  · cases parsed
  next tokens scanned =>
    obtain ⟨words, rfl, -, follow, standing⟩ := (placed_of_scan_eq_ok scanned).words
    have stands : ∀ word ∈ words, ∃ before value, Stands file text word before value := by
      intro word member
      obtain ⟨before, value, -, stands⟩ := standing word member
      exact ⟨before, value, stands⟩
    have plain : ∀ word ∈ words, word.kind ≠ .endOfInput := by
      intro word member
      obtain ⟨before, value, stands⟩ := stands word member
      exact stands.isToken.kind_ne
    have formed : ∀ word ∈ words, Formed word := by
      intro word member
      obtain ⟨_, _, stands⟩ := stands word member
      refine ⟨stands.ordered, fun isInteger => ?_⟩
      rw [stands.value_eq]
      exact (isInteger ▸ stands.isToken).isInteger
    obtain ⟨derived, nearest, span⟩ := CompUnit.program_of_ofTokens rfl plain parsed
    exact ⟨words, derived, nearest, span, ⟨follow, formed⟩, stands⟩

abbrev CompUnit.Aligned (unit : CompUnit) : Prop := Node.Aligned (Node.unit unit).children

/-- The tokens of a text stand where the text has them, so the parts of its program stand in their places. -/
theorem CompUnit.aligned_of_ofText (parsed : CompUnit.ofText file text = .ok unit) : unit.Aligned := by
  obtain ⟨_, source⟩ := CompUnit.exists_source parsed
  exact source.derived.aligned source.sorted

end Source

end SysYTools
