import SysYTools.Proofs.Literal
import SysYTools.Proofs.Scope.Table
import SysYTools.Proofs.Tree.Layout

/-!
Linking follows the rule of lexical scoping. While a program is linked, the place of the node at hand cuts
every open scope, so each use of a name gets the meaning that the rule gives. A definition moves the cut of
its own scope behind itself. Linking stops only at a dimension whose literal has too many digits.
-/

namespace SysYTools

open List

variable {declaration : Declaration} {before : List Declaration} {outer : List Frame}
variable {decl : Decl} {func : FuncDef} {param : Param} {α : Type}

/-! ## Uses of names and dimensions below a node -/

/-- The meaning that the rule gives to the name at a site. -/
def Node.Site.binding? (unit : CompUnit) (site : Node.Site) : Option Binding :=
  match site.node with
  | .expr (.lval reference _ _) => some { reference, target := Lexical.variableTarget unit site.ancestors reference }
  | .expr (.call reference _ _) => some { reference, target := Lexical.functionTarget unit reference }
  | _ => none

/-- The uses of names from a node on, with the meanings that the rule gives. -/
def Node.bindings (unit : CompUnit) (ancestors : List Node) (node : Node) : List Binding :=
  (node.sitesUnder ancestors).filterMap (·.binding? unit)

theorem Node.bindings_eq (unit : CompUnit) (ancestors : List Node) (node : Node) :
    node.bindings unit ancestors =
      (Site.binding? unit { node, ancestors }).toList ++
        node.children.flatMap (bindings unit (node :: ancestors)) := by
  rw [bindings, sitesUnder_eq, filterMap_cons, filterMap_flatMap]
  cases Site.binding? unit { node, ancestors } <;> rfl

/-- A dimension that is a literal with too many digits. -/
def Expr.isOverlong : Expr → Bool
  | .intLit written _ => Literal.isOverlong written
  | _ => false

/-- A definition with such a dimension. -/
def Node.hasOverlongDim : Node → Bool
  | .varDef var => var.dims.any (·.isOverlong)
  | .param parameter => parameter.dims.any (·.isOverlong)
  | _ => false

/-- A node with such a definition below it. -/
def Node.Overlong (node : Node) : Prop := ∃ part ∈ node.walk, part.hasOverlongDim = true

theorem Node.overlong_iff {node : Node} :
    node.Overlong ↔ node.hasOverlongDim = true ∨ ∃ child ∈ node.children, child.Overlong := by
  rw [Overlong, walk_eq]
  simp only [mem_cons, mem_flatMap, Overlong]
  grind

theorem Node.not_overlong_expr (expr : Expr) : ¬ (Node.expr expr).Overlong := by
  generalize shape : Node.expr expr = node
  induction node using induction_children generalizing expr with
  | step _ ih =>
    subst shape
    rw [overlong_iff, not_or, not_exists]
    refine ⟨by simp [hasOverlongDim], fun child ⟨below, overlong⟩ => ?_⟩
    obtain ⟨inner, rfl⟩ := expr_of_mem_children below
    exact ih _ below inner rfl overlong

theorem Node.not_overlong_init (init : InitVal) : ¬ init.node.Overlong := by
  generalize shape : init.node = node
  induction node using induction_children generalizing init with
  | step _ ih =>
    subst shape
    cases init with
    | expr value => exact not_overlong_expr value
    | list =>
      rw [overlong_iff, not_or, not_exists]
      refine ⟨by simp [InitVal.node, hasOverlongDim], fun child ⟨below, overlong⟩ => ?_⟩
      obtain ⟨inner, _, rfl⟩ := mem_map.mp below
      exact ih _ below inner rfl overlong

/-! ## Runs of the linking -/

/-- A run gives a result of a kind, or else it is broken. -/
def Links (result : Except LinkStop Linkage) (broken : Prop) (post : Linkage → Prop) : Prop :=
  match result with
  | .ok done => ¬ broken ∧ post done
  | .error _ => broken

/-- The nodes are linked from a state on: the scopes are then as the lists say, and the uses of names in the
nodes have the meanings of the rule. -/
def LinksParts (unit : CompUnit) (ancestors : List Node) (nodes : List Node) (linkage : Linkage)
    (known : List (List Declaration)) (result : Except LinkStop Linkage) : Prop :=
  Links result (∃ node ∈ nodes, node.Overlong) fun done =>
    done.table.Shows known ∧ done.bindings = linkage.bindings ++ nodes.flatMap (·.bindings unit ancestors)

section Runs

variable {unit : CompUnit} {ancestors nodes more : List Node} {linkage : Linkage}
  {known knownAfter : List (List Declaration)} {result : Except LinkStop Linkage}
  {next : Linkage → Except LinkStop Linkage}

theorem LinksParts.nil (shows : linkage.table.Shows known) :
    LinksParts unit ancestors [] linkage known (.ok linkage) :=
  ⟨by simp, shows, by simp⟩

theorem LinksParts.append (first : LinksParts unit ancestors nodes linkage known result)
    (second : ∀ done, done.table.Shows known → LinksParts unit ancestors more done knownAfter (next done)) :
    LinksParts unit ancestors (nodes ++ more) linkage knownAfter (result >>= next) := by
  cases result with
  | error =>
    obtain ⟨node, member, overlong⟩ := first
    exact ⟨node, mem_append_left _ member, overlong⟩
  | ok done =>
    obtain ⟨_, shows, bindings⟩ := first
    have run := second done shows
    have broken : (∃ node ∈ nodes ++ more, node.Overlong) ↔ ∃ node ∈ more, node.Overlong := by
      simp only [mem_append]
      grind
    unfold LinksParts at run ⊢
    rw [broken]
    change Links (next done) _ _
    rw [bindings] at run
    simpa only [flatMap_append, append_assoc] using run

theorem LinksParts.node {node : Node} (plain : node.hasOverlongDim = false)
    (nameless : Node.Site.binding? unit { node, ancestors } = none)
    (children : LinksParts unit (node :: ancestors) node.children linkage known result) :
    LinksParts unit ancestors [node] linkage known result := by
  unfold LinksParts at children ⊢
  simpa [@Node.overlong_iff node, plain, Node.bindings_eq unit ancestors node, nameless] using children

theorem LinksParts.leave {scope : List Declaration} (inside : known ≠ [])
    (run : LinksParts unit ancestors nodes linkage (scope :: known) result) :
    LinksParts unit ancestors nodes linkage known (result >>= Linkage.leave) := by
  cases result with
  | error => exact run
  | ok done =>
    obtain ⟨sound, shows, bindings⟩ := run
    obtain ⟨popped, closed, shows⟩ := shows.pop inside
    have left : done.leave = .ok { done with table := popped } := by
      rw [Linkage.leave, closed]
      rfl
    change LinksParts unit ancestors nodes linkage known done.leave
    rw [left]
    exact ⟨sound, shows, bindings⟩

end Runs

/-! ## Expressions -/

/-- A table below some nodes: the scopes of the rule are cut, and the table knows what stands before the
cuts. -/
structure SymbolTable.At (table : SymbolTable) (unit : CompUnit) (ancestors : List Node)
    (frames : List Frame) : Prop where
  scopes : frames.map (·.all) = Lexical.localScopes ancestors ++ [unit.globalScope]
  shows : table.Shows (frames.map (·.before))

variable {unit : CompUnit} {ancestors : List Node} {frames : List Frame} {table : SymbolTable}

theorem SymbolTable.At.known_ne_nil (placed : table.At unit ancestors frames) : frames.map (·.before) ≠ [] := by
  rintro none
  have scopes := placed.scopes
  rw [map_eq_nil_iff.mp none] at scopes
  simp at scopes

private theorem bindingsOfAll_expr (exprs : List Expr) :
    Expr.bindingsOfAll table exprs = exprs.flatMap (·.bindings table) := by
  induction exprs with
  | nil => rfl
  | cons _ _ ih => rw [Expr.bindingsOfAll, ih, flatMap_cons]

private theorem bindingsOfAll_init (inits : List InitVal) :
    InitVal.bindingsOfAll table inits = inits.flatMap (·.bindings table) := by
  induction inits with
  | nil => rfl
  | cons _ _ ih => rw [InitVal.bindingsOfAll, ih, flatMap_cons]

theorem Expr.bindings_eq {expr : Expr} (placed : table.At unit ancestors frames)
    (laid : (Node.expr expr).Laid) (around : ∀ frame ∈ frames, frame.Around expr.span) :
    expr.bindings table = (Node.expr expr).bindings unit ancestors := by
  generalize shape : Node.expr expr = node at laid
  induction laid generalizing expr ancestors with
  | @mk node fits _ ih =>
    subst shape
    have below : ∀ inner, Node.expr inner ∈ (Node.expr expr).children →
        inner.bindings table = (Node.expr inner).bindings unit (.expr expr :: ancestors) :=
      fun inner member => ih _ member ⟨placed.scopes, placed.shows⟩
        (fun frame isFrame => (around frame isFrame).inside (fits.inside _ member)) rfl
    have parts : ∀ inners : List Expr, (Node.expr expr).children = inners.map .expr →
        inners.flatMap (·.bindings table) =
          (Node.expr expr).children.flatMap (·.bindings unit (.expr expr :: ancestors)) := by
      intro inners shape
      rw [shape, flatMap_map]
      exact flatMap_congr fun inner member => below inner (by rw [shape]; exact mem_map_of_mem member)
    have word : ∀ span ∈ (Node.expr expr).words, span.Ordered ∧ ∀ frame ∈ frames, frame.Around span :=
      fun span member => ⟨(fits.word span member).1, fun frame isFrame =>
        (around frame isFrame).inside (fits.word span member).2.1⟩
    rw [Node.bindings_eq]
    cases expr with
    | intLit | floatLit => rfl
    | lval reference indices =>
      obtain ⟨ordered, cut⟩ := word reference.span (by simp [Node.words])
      rw [Expr.bindings, bindingsOfAll_expr, placed.shows.variableTarget placed.scopes cut ordered, parts indices rfl]
      rfl
    | call reference arguments =>
      obtain ⟨-, cut⟩ := word reference.span (by simp [Node.words])
      rw [Expr.bindings, bindingsOfAll_expr, placed.shows.callTarget placed.scopes cut, parts arguments rfl]
      rfl
    | unary _ operand =>
      rw [Expr.bindings, below operand (by simp [Node.children])]
      simp [Node.Site.binding?, Node.children]
    | binary left _ right =>
      rw [Expr.bindings, below left (by simp [Node.children]), below right (by simp [Node.children])]
      simp [Node.Site.binding?, Node.children]

theorem InitVal.bindings_eq {init : InitVal} (placed : table.At unit ancestors frames)
    (laid : init.node.Laid) (around : ∀ frame ∈ frames, frame.Around init.node.span) :
    init.bindings table = init.node.bindings unit ancestors := by
  generalize shape : init.node = node at laid
  induction laid generalizing init ancestors with
  | @mk node fits children ih =>
    subst shape
    cases init with
    | expr => exact Expr.bindings_eq placed (.mk fits children) around
    | list elements span =>
      rw [InitVal.bindings, bindingsOfAll_init, Node.bindings_eq]
      simp only [Node.Site.binding?, InitVal.node, Option.toList_none, nil_append, Node.children, flatMap_map]
      refine flatMap_congr fun inner member => ?_
      have below : inner.node ∈ (InitVal.list elements span).node.children := mem_map_of_mem member
      exact ih _ below ⟨placed.scopes, placed.shows⟩
        (fun frame isFrame => (around frame isFrame).inside (fits.inside _ below)) rfl

/-! ## Definitions -/

private theorem mapM_isOk {β : Type} {f : α → Except Fault β} {items : List α} :
    (∃ results, items.mapM f = .ok results) ↔ ∀ item ∈ items, ∃ result, f item = .ok result := by
  induction items with
  | nil => simp [pure, Except.pure]
  | cons first rest ih =>
    rw [forall_mem_cons, ← ih, mapM_cons]
    cases f first <;> cases rest.mapM f <;> simp [bind, Except.bind, pure, Except.pure]

private theorem literalDims_isOk {dims : List Expr} (laid : ∀ dim ∈ dims, (Node.expr dim).Laid) :
    (∃ sizes, Declaration.literalDims dims = .ok sizes) ↔ dims.any (·.isOverlong) = false := by
  rw [Declaration.literalDims, mapM_isOk, any_eq_false]
  refine forall₂_congr fun dim member => ?_
  cases dim with
  | intLit value =>
    have form := (laid _ member).fits.literal value rfl
    rw [Bool.not_eq_true, Expr.isOverlong, ← Literal.intValue_isOk_iff form]
    cases read : Literal.intValue value <;> simp [Functor.map, Except.map, read]
  | _ => simp [Expr.isOverlong, pure, Except.pure]

private theorem define_ok {linkage : Linkage} {declaration : Declaration} {before : List Declaration}
    {outer : List (List Declaration)} {dims : List (Option Int)} (sized : declaration.dims = .ok dims)
    (shows : linkage.table.Shows (before :: outer)) :
    ∃ done, linkage.define declaration = .ok done ∧
      done.table.Shows ((before ++ [declaration]) :: outer) ∧ done.bindings = linkage.bindings := by
  simp only [Linkage.define, sized, Linkage.orStop, Except.mapError]
  cases found : linkage.table.current.find? declaration.name with
  | some => exact ⟨_, rfl, shows.keep (by simp [found]), rfl⟩
  | none => exact ⟨_, rfl, shows.define found dims, rfl⟩

theorem Linkage.define_links {node : Node} {linkage used : Linkage} {outer : List (List Declaration)}
    (shows : used.table.Shows (before :: outer)) (bindings : used.bindings =
      linkage.bindings ++ node.children.flatMap (·.bindings unit (node :: ancestors)))
    (nameless : Node.Site.binding? unit { node, ancestors } = none) (plain : ∀ child ∈ node.children, ¬ child.Overlong)
    (sizes : (∃ dims, declaration.dims = .ok dims) ↔ node.hasOverlongDim = false) :
    LinksParts unit ancestors [node] linkage ((before ++ [declaration]) :: outer) (used.define declaration) := by
  have overlong : (∃ part ∈ [node], part.Overlong) ↔ node.hasOverlongDim = true := by
    simp only [mem_singleton, exists_eq_left]
    rw [Node.overlong_iff]
    grind
  have uses : [node].flatMap (·.bindings unit ancestors) =
      node.children.flatMap (·.bindings unit (node :: ancestors)) := by
    simp [Node.bindings_eq unit ancestors node, nameless]
  rw [LinksParts, overlong, uses, ← bindings]
  cases sized : declaration.dims with
  | error =>
    have broken : node.hasOverlongDim ≠ false := by simpa [sized] using sizes
    rw [Linkage.define, sized]
    exact Bool.eq_true_of_not_eq_false broken
  | ok dims =>
    have sound : node.hasOverlongDim = false := sizes.mp ⟨dims, sized⟩
    obtain ⟨_, defined, shown, same⟩ := define_ok sized shows
    rw [defined]
    exact ⟨by simp [sound], shown, same⟩

private theorem bindingsOfAll_eq {exprs : List Expr} (placed : table.At unit ancestors frames)
    (laid : ∀ expr ∈ exprs, (Node.expr expr).Laid)
    (around : ∀ expr ∈ exprs, ∀ frame ∈ frames, frame.Around expr.span) :
    Expr.bindingsOfAll table exprs = (exprs.map Node.expr).flatMap (·.bindings unit ancestors) := by
  rw [bindingsOfAll_expr, flatMap_map]
  exact flatMap_congr fun expr member => Expr.bindings_eq placed (laid expr member) (around expr member)

section Definitions

variable {before after : List Declaration} {outer : List Frame} {declaration : Declaration}

private theorem around_inside {place inner : Span} (around : ∀ frame ∈ ⟨before, after⟩ :: outer, frame.Around place)
    (isVariable : declaration.isFunction = false) (own : declaration.span = place) (inside : inner.Inside place) :
    ∀ frame ∈ ⟨before, declaration :: after⟩ :: outer, frame.Around inner := by
  obtain ⟨current, others⟩ := forall_mem_cons.mp around
  refine forall_mem_cons.mpr ⟨⟨(current.inside inside).before, ?_⟩, fun frame isFrame =>
    (others frame isFrame).inside inside⟩
  exact forall_mem_cons.mpr ⟨⟨isVariable, own ▸ inside.2⟩, (current.inside inside).after⟩

theorem Linkage.varDef_links {var : VarDef} {linkage : Linkage}
    (placed : linkage.table.At unit ancestors (⟨before, .variable decl var :: after⟩ :: outer))
    (laid : (Node.varDef var).Laid)
    (around : ∀ frame ∈ ⟨before, after⟩ :: outer, frame.Around (Node.varDef var).span) :
    LinksParts unit ancestors [.varDef var] linkage
      ((before ++ [.variable decl var]) :: outer.map (·.before)) (Linkage.varDef decl linkage var) := by
  have below : linkage.table.At unit (.varDef var :: ancestors)
      (⟨before, .variable decl var :: after⟩ :: outer) := ⟨placed.scopes, placed.shows⟩
  have cut : ∀ child ∈ (Node.varDef var).children,
      ∀ frame ∈ ⟨before, .variable decl var :: after⟩ :: outer, frame.Around child.span :=
    fun child member => around_inside around rfl rfl (laid.fits.inside child member)
  have dims := bindingsOfAll_eq below
    (fun dim member => laid.child (by simp [Node.children, member]))
    (fun dim (member : dim ∈ var.dims) => cut (.expr dim) (by simp [Node.children, member]))
  have sizes : (∃ dims, (Declaration.variable decl var).dims = .ok dims) ↔
      (Node.varDef var).hasOverlongDim = false :=
    literalDims_isOk fun dim member => laid.child (by simp [Node.children, member])
  have plain : ∀ child ∈ (Node.varDef var).children, ¬ child.Overlong := by
    simp only [Node.children, forall_mem_append, forall_mem_map, Option.mem_toList, Option.map_eq_some_iff]
    refine ⟨fun dim _ => Node.not_overlong_expr dim, ?_⟩
    rintro _ ⟨value, -, rfl⟩
    exact Node.not_overlong_init value
  cases init : var.init with
  | none =>
    have run : Linkage.varDef decl linkage var =
        (linkage.use (Expr.bindingsOfAll linkage.table var.dims)).define (.variable decl var) := by
      rw [Linkage.varDef, init]
    rw [run]
    refine Linkage.define_links placed.shows ?_ rfl plain sizes
    simp [Linkage.use, Node.children, init, dims]
  | some value =>
    have run : Linkage.varDef decl linkage var =
        ((linkage.use (Expr.bindingsOfAll linkage.table var.dims)).use
          (value.bindings linkage.table)).define (.variable decl var) := by
      rw [Linkage.varDef, init]
      rfl
    have member : value.node ∈ (Node.varDef var).children := by simp [Node.children, init]
    have values := InitVal.bindings_eq below (laid.child member) (cut _ member)
    rw [run]
    refine Linkage.define_links placed.shows ?_ rfl plain sizes
    simp [Linkage.use, Node.children, init, dims, values]

theorem Linkage.param_links {linkage : Linkage}
    (placed : linkage.table.At unit ancestors (⟨before, .parameter param :: after⟩ :: outer))
    (laid : (Node.param param).Laid)
    (around : ∀ frame ∈ ⟨before, after⟩ :: outer, frame.Around (Node.param param).span) :
    LinksParts unit ancestors [.param param] linkage
      ((before ++ [.parameter param]) :: outer.map (·.before)) (linkage.param param) := by
  have below : linkage.table.At unit (.param param :: ancestors)
      (⟨before, .parameter param :: after⟩ :: outer) := ⟨placed.scopes, placed.shows⟩
  have laidDim : ∀ dim ∈ param.dims, (Node.expr dim).Laid :=
    fun dim member => laid.child (by simp [Node.children, member])
  have dims := bindingsOfAll_eq below laidDim fun dim member => around_inside around rfl rfl
    (laid.fits.inside (.expr dim) (by simp [Node.children, member]))
  have sizes : (∃ dims, (Declaration.parameter param).dims = .ok dims) ↔
      (Node.param param).hasOverlongDim = false := by
    rw [Node.hasOverlongDim, ← literalDims_isOk laidDim, Declaration.dims]
    cases Declaration.literalDims param.dims <;> simp [bind, Except.bind, pure, Except.pure]
  refine Linkage.define_links placed.shows ?_ rfl ?_ sizes
  · simp [Linkage.use, Node.children, dims]
  · simp [Node.children, Node.not_overlong_expr]

/-- Parts that follow each other are linked one after the other. Each one leaves the cut of the innermost
scope behind its own definitions. -/
theorem fold_links {step : Linkage → α → Except LinkStop Linkage} {node : α → Node}
    {defines : α → List Declaration} {parts : List α} {linkage : Linkage}
    (spec : ∀ part ∈ parts, ∀ (linkage : Linkage) (before after : List Declaration),
      linkage.table.At unit ancestors (⟨before, defines part ++ after⟩ :: outer) →
      (∀ frame ∈ ⟨before, after⟩ :: outer, frame.Around (node part).span) →
      LinksParts unit ancestors [node part] linkage
        ((before ++ defines part) :: outer.map (·.before)) (step linkage part))
    (within : ∀ part ∈ parts, ∀ declaration ∈ defines part, declaration.isFunction = false ∧
      declaration.span.Ordered ∧ declaration.span.Inside (node part).span)
    (sorted : (parts.map node).Pairwise fun left right => left.span.Before right.span)
    (placed : linkage.table.At unit ancestors (⟨before, parts.flatMap defines ++ after⟩ :: outer))
    (around : ∀ part ∈ parts, ∀ frame ∈ ⟨before, after⟩ :: outer, frame.Around (node part).span) :
    LinksParts unit ancestors (parts.map node) linkage
      ((before ++ parts.flatMap defines) :: outer.map (·.before)) (parts.foldlM step linkage) := by
  induction parts generalizing linkage before with
  | nil =>
    rw [flatMap_nil, append_nil]
    exact .nil placed.shows
  | cons part rest ih =>
    obtain ⟨specPart, specRest⟩ := forall_mem_cons.mp spec
    obtain ⟨withinPart, withinRest⟩ := forall_mem_cons.mp within
    obtain ⟨ahead, sortedRest⟩ := pairwise_cons.mp sorted
    obtain ⟨aroundPart, aroundRest⟩ := forall_mem_cons.mp around
    obtain ⟨current, others⟩ := forall_mem_cons.mp aroundPart
    rw [flatMap_cons, append_assoc] at placed
    have cut : ∀ frame ∈ ⟨before, rest.flatMap defines ++ after⟩ :: outer,
        frame.Around (node part).span := by
      refine forall_mem_cons.mpr ⟨⟨current.before, ?_⟩, others⟩
      refine forall_mem_append.mpr ⟨fun declaration member => ?_, current.after⟩
      obtain ⟨later, isLater, member⟩ := mem_flatMap.mp member
      obtain ⟨isVariable, ordered, inside⟩ := withinRest later isLater declaration member
      have order := (ahead _ (mem_map_of_mem isLater)).of_inside_right inside
      exact ⟨isVariable, order.le.trans ordered⟩
    have cutRest : ∀ later ∈ rest, ∀ frame ∈ ⟨before ++ defines part, after⟩ :: outer,
        frame.Around (node later).span := by
      intro later isLater
      obtain ⟨currentLater, othersLater⟩ := forall_mem_cons.mp (aroundRest later isLater)
      refine forall_mem_cons.mpr ⟨⟨?_, currentLater.after⟩, othersLater⟩
      refine forall_mem_append.mpr ⟨currentLater.before, fun declaration member _ => ?_⟩
      exact (ahead _ (mem_map_of_mem isLater)).of_inside_left (withinPart declaration member).2.2
    rw [flatMap_cons, ← append_assoc, foldlM_cons]
    refine (specPart linkage before _ placed cut).append fun done shows => ?_
    refine ih specRest withinRest sortedRest ⟨?_, shows⟩ cutRest
    simpa [Frame.all] using placed.scopes

theorem Linkage.decl_links {linkage : Linkage}
    (placed : linkage.table.At unit ancestors (⟨before, decl.variables ++ after⟩ :: outer))
    (laid : (Node.decl decl).Laid) (around : ∀ frame ∈ ⟨before, after⟩ :: outer, frame.Around (Node.decl decl).span) :
    LinksParts unit ancestors [.decl decl] linkage
      ((before ++ decl.variables) :: outer.map (·.before)) (linkage.decl decl) := by
  have single : decl.variables = decl.defs.flatMap fun var => [.variable decl var] := map_eq_flatMap
  have laidDef : ∀ var ∈ decl.defs, (Node.varDef var).Laid := fun var member => laid.child (mem_map_of_mem member)
  rw [single] at placed ⊢
  refine .node rfl rfl (fold_links ?_ ?_ laid.fits.sorted ⟨placed.scopes, placed.shows⟩ ?_)
  · intro var member linkage before after placed around
    exact Linkage.varDef_links placed (laidDef var member) around
  · intro var member declaration own
    rw [mem_singleton.mp own]
    exact ⟨rfl, (laidDef var member).fits.ordered, .refl _⟩
  · intro var member frame isFrame
    exact (around frame isFrame).inside (laid.fits.inside _ (mem_map_of_mem member))

end Definitions

/-! ## Statements -/

theorem Linkage.use_links {expr : Expr} {linkage : Linkage}
    (placed : linkage.table.At unit ancestors frames) (laid : (Node.expr expr).Laid)
    (around : ∀ frame ∈ frames, frame.Around expr.span) :
    LinksParts unit ancestors [.expr expr] linkage (frames.map (·.before))
      (.ok (linkage.use (expr.bindings linkage.table))) := by
  refine ⟨by simp [Node.not_overlong_expr], placed.shows, ?_⟩
  simp [Linkage.use, Expr.bindings_eq placed laid around]

private theorem blockItems_eq_foldlM (linkage : Linkage) (items : List BlockItem) :
    linkage.blockItems items = items.foldlM Linkage.blockItem linkage := by
  induction items generalizing linkage with
  | nil => simp [Linkage.blockItems]
  | cons _ _ ih => simp [Linkage.blockItems, foldlM_cons, ih]

private theorem within_decl (laid : (Node.decl decl).Laid)
    (member : declaration ∈ decl.variables) : declaration.isFunction = false ∧
      declaration.span.Ordered ∧ declaration.span.Inside decl.span := by
  obtain ⟨var, isDef, rfl⟩ := mem_map.mp member
  have below : Node.varDef var ∈ (Node.decl decl).children := mem_map_of_mem isDef
  exact ⟨rfl, (laid.child below).fits.ordered, laid.fits.inside _ below⟩

private theorem within_blockItem {item : BlockItem} (laid : item.node.Laid)
    (member : declaration ∈ item.variables) : declaration.isFunction = false ∧
      declaration.span.Ordered ∧ declaration.span.Inside item.node.span := by
  cases item with
  | decl => exact within_decl laid member
  | stmt => cases member

private theorem blockItems_links {items : List BlockItem} {linkage : Linkage}
    (stmts : ∀ stmt, BlockItem.stmt stmt ∈ items → ∀ (linkage : Linkage) (frames : List Frame),
      linkage.table.At unit ancestors frames → (∀ frame ∈ frames, frame.Around stmt.span) →
      LinksParts unit ancestors [.stmt stmt] linkage (frames.map (·.before)) (linkage.stmt stmt))
    (aligned : Node.Aligned (items.map (·.node)))
    (placed : linkage.table.At unit ancestors (⟨before, items.flatMap (·.variables)⟩ :: outer))
    (around : ∀ item ∈ items, ∀ frame ∈ ⟨before, []⟩ :: outer, frame.Around item.node.span) :
    LinksParts unit ancestors (items.map (·.node)) linkage
      ((before ++ items.flatMap (·.variables)) :: outer.map (·.before)) (linkage.blockItems items) := by
  have laid : ∀ item ∈ items, item.node.Laid := fun item member => aligned.1 _ (mem_map_of_mem member)
  rw [blockItems_eq_foldlM]
  refine fold_links ?_ (fun item member _ => within_blockItem (laid item member)) aligned.2
    (by rwa [append_nil]) around
  intro item member linkage before after placed around
  cases item with
  | decl => exact Linkage.decl_links placed (laid _ member) around
  | stmt stmt =>
    have run := stmts stmt member linkage _ placed around
    simpa [BlockItem.variables, BlockItem.node, Linkage.blockItem] using run

private theorem stmt_assign (linkage : Linkage) (target : Reference) (indices : List Expr)
    (targetSpan : Span) (value : Expr) (span : Span) :
    linkage.stmt (.assign target indices targetSpan value span) =
      .ok (linkage.use ((Expr.lval target indices targetSpan).bindings linkage.table)) >>=
        fun done => .ok (done.use (value.bindings done.table)) := by
  simp [Linkage.stmt, Linkage.use, bind, Except.bind, pure, Except.pure]

private theorem stmt_branch (linkage : Linkage) (condition : Expr) (thenPart : Stmt)
    (elsePart : Option Stmt) (span : Span) :
    linkage.stmt (.branch condition thenPart elsePart span) =
      .ok (linkage.use (condition.bindings linkage.table)) >>= fun done =>
        done.stmt thenPart >>= fun done =>
          match elsePart with
          | some elsePart => done.stmt elsePart
          | none => .ok done := by
  rw [Linkage.stmt]
  rfl

private theorem stmt_loop (linkage : Linkage) (condition : Expr) (body : Stmt) (span : Span) :
    linkage.stmt (.loop condition body span) =
      .ok (linkage.use (condition.bindings linkage.table)) >>= fun done => done.stmt body := by
  rw [Linkage.stmt]
  rfl

theorem Linkage.stmt_links {stmt : Stmt} {linkage : Linkage} (placed : linkage.table.At unit ancestors frames)
    (inner : ∀ func outer, ancestors ≠ .func func :: outer) (laid : (Node.stmt stmt).Laid)
    (around : ∀ frame ∈ frames, frame.Around stmt.span) :
    LinksParts unit ancestors [.stmt stmt] linkage (frames.map (·.before)) (linkage.stmt stmt) := by
  generalize shape : Node.stmt stmt = node at laid
  induction laid generalizing stmt ancestors frames linkage with
  | @mk node fits children ih =>
    subst shape
    have cut : ∀ child ∈ (Node.stmt stmt).children, ∀ frame ∈ frames, frame.Around child.span :=
      fun child member frame isFrame => (around frame isFrame).inside (fits.inside child member)
    refine .node rfl rfl ?_
    cases stmt with
    | block =>
      refine .leave placed.known_ne_nil (blockItems_links ?_ ⟨children, fits.sorted⟩
        ⟨?_, placed.shows.push "block"⟩ ?_)
      · intro stmt member linkage frames placed around
        exact ih _ (mem_map_of_mem member) placed (by simp) around rfl
      · rw [Lexical.localScopes_block inner, map_cons, placed.scopes]
        rfl
      · intro item member
        exact forall_mem_cons.mpr ⟨⟨by simp, by simp⟩, cut _ (mem_map_of_mem member)⟩
    | assign target indices targetSpan value span =>
      have below : linkage.table.At unit
          (.stmt (.assign target indices targetSpan value span) :: ancestors) frames :=
        ⟨placed.scopes, placed.shows⟩
      rw [stmt_assign]
      refine (Linkage.use_links below (children _ mem_cons_self) (cut _ mem_cons_self)).append fun done shows => ?_
      exact Linkage.use_links ⟨below.scopes, shows⟩ (children _ (by simp [Node.children]))
        (cut (.expr value) (by simp [Node.children]))
    | expr value =>
      cases value with
      | none => exact .nil placed.shows
      | some value =>
        exact Linkage.use_links ⟨placed.scopes, placed.shows⟩ (children _ mem_cons_self)
          (cut (.expr value) mem_cons_self)
    | branch condition thenPart elsePart span =>
      have below : linkage.table.At unit
          (.stmt (.branch condition thenPart elsePart span) :: ancestors) frames :=
        ⟨placed.scopes, placed.shows⟩
      rw [stmt_branch]
      refine (Linkage.use_links below (children _ mem_cons_self) (cut _ mem_cons_self)).append fun done shows => ?_
      have member : Node.stmt thenPart ∈
          (Node.stmt (.branch condition thenPart elsePart span)).children := by simp [Node.children]
      refine (ih _ member ⟨below.scopes, shows⟩ (by simp) (cut _ member) rfl).append fun done shows => ?_
      cases elsePart with
      | none => exact .nil shows
      | some elsePart =>
        have member : Node.stmt elsePart ∈
            (Node.stmt (.branch condition thenPart (some elsePart) span)).children := by
          simp [Node.children]
        exact ih _ member ⟨below.scopes, shows⟩ (by simp) (cut _ member) rfl
    | loop condition body span =>
      have below : linkage.table.At unit (.stmt (.loop condition body span) :: ancestors) frames :=
        ⟨placed.scopes, placed.shows⟩
      rw [stmt_loop]
      refine (Linkage.use_links below (children _ mem_cons_self) (cut _ mem_cons_self)).append fun done shows => ?_
      have member : Node.stmt body ∈ (Node.stmt (.loop condition body span)).children := by simp [Node.children]
      exact ih _ member ⟨below.scopes, shows⟩ (by simp) (cut _ member) rfl
    | breakLoop | continueLoop => exact .nil placed.shows
    | giveBack value =>
      cases value with
      | none => exact .nil placed.shows
      | some value =>
        exact Linkage.use_links ⟨placed.scopes, placed.shows⟩ (children _ mem_cons_self)
          (cut (.expr value) mem_cons_self)

/-! ## Functions and programs -/

private theorem within_body (laid : (Node.func func).Laid) (member : declaration ∈ func.body.flatMap (·.variables)) :
    declaration.isFunction = false ∧ declaration.span.Ordered ∧ declaration.span.Inside func.block.span := by
  have laidBody : (Node.stmt func.block).Laid := laid.child (by simp [Node.children])
  obtain ⟨item, isItem, member⟩ := mem_flatMap.mp member
  have below : item.node ∈ (Node.stmt func.block).children := mem_map_of_mem isItem
  obtain ⟨isVariable, ordered, inside⟩ := within_blockItem (laidBody.child below) member
  exact ⟨isVariable, ordered, inside.trans (laidBody.fits.inside _ below)⟩

private theorem param_before_block (laid : (Node.func func).Laid) (member : param ∈ func.params) :
    param.span.Before func.block.span :=
  (pairwise_append.mp laid.fits.sorted).2.2 _ (mem_map_of_mem member) _ (mem_singleton_self _)

section Functions

variable {linkage : Linkage} (placed : linkage.table.At unit ancestors frames) (laid : (Node.func func).Laid)
  (around : ∀ frame ∈ frames, frame.Around func.span)
include placed laid around

private theorem params_links :
    LinksParts unit (.func func :: ancestors) (func.params.map .param) linkage
      (func.params.map .parameter :: frames.map (·.before))
      (func.params.foldlM Linkage.param (linkage.enter func.name)) := by
  have isParam : ∀ param ∈ func.params, Node.param param ∈ (Node.func func).children :=
    fun param member => mem_append_left _ (mem_map_of_mem member)
  have single : func.params.map Declaration.parameter =
      func.params.flatMap fun param => [.parameter param] := map_eq_flatMap
  have entered : (linkage.enter func.name).table.At unit (.func func :: ancestors)
      (⟨[], (func.params.flatMap fun param => [.parameter param]) ++
        func.body.flatMap (·.variables)⟩ :: frames) := by
    refine ⟨?_, placed.shows.push func.name⟩
    rw [map_cons, placed.scopes, ← single]
    rfl
  rw [single]
  refine fold_links ?_ ?_ (pairwise_append.mp laid.fits.sorted).1 entered ?_
  · intro param member linkage before after placed around
    exact Linkage.param_links placed (laid.child (isParam param member)) around
  · intro param member declaration own
    rw [mem_singleton.mp own]
    exact ⟨rfl, (laid.child (isParam param member)).fits.ordered, .refl _⟩
  · intro param member
    refine forall_mem_cons.mpr ⟨⟨by simp, fun declaration isLocal => ?_⟩, fun frame isFrame =>
      (around frame isFrame).inside (laid.fits.inside _ (isParam param member))⟩
    obtain ⟨isVariable, ordered, inside⟩ := within_body laid isLocal
    have order := param_before_block laid member
    exact ⟨isVariable, (order.of_inside_right inside).le.trans ordered⟩

private theorem body_links {done : Linkage}
    (shows : done.table.Shows (func.params.map .parameter :: frames.map (·.before))) :
    LinksParts unit (.func func :: ancestors) [.stmt func.block] done
      ((func.params.map .parameter ++ func.body.flatMap (·.variables)) :: frames.map (·.before))
      (done.blockItems func.body) := by
  have isBody : Node.stmt func.block ∈ (Node.func func).children := by simp [Node.children]
  have laidBody := laid.child isBody
  refine .node rfl rfl (blockItems_links ?_ laidBody.aligned ⟨?_, shows⟩ ?_)
  · intro stmt member linkage frames placed around
    exact Linkage.stmt_links placed (by simp) (laidBody.child (mem_map_of_mem member)) around
  · rw [map_cons, placed.scopes]
    rfl
  · intro item member
    have inside := laidBody.fits.inside item.node (mem_map_of_mem member)
    refine forall_mem_cons.mpr ⟨⟨?_, by simp⟩, fun frame isFrame =>
      ((around frame isFrame).inside (laid.fits.inside _ isBody)).inside inside⟩
    intro declaration member _
    obtain ⟨_, isParam, rfl⟩ := mem_map.mp member
    exact (param_before_block laid isParam).of_inside_right inside

theorem Linkage.function_links :
    LinksParts unit ancestors [.func func] linkage (frames.map (·.before)) (linkage.function func) := by
  have run : linkage.function func =
      (func.params.foldlM Linkage.param (linkage.enter func.name) >>= fun done =>
        done.blockItems func.body) >>= Linkage.leave := by
    rw [Linkage.function, bind_assoc]
  rw [run]
  exact .node rfl rfl (.leave placed.known_ne_nil ((params_links placed laid around).append
    fun _ shows => body_links placed laid around shows))

end Functions

theorem Linkage.item_links {item : Item} {linkage : Linkage} {after : List Declaration}
    (placed : linkage.table.At unit ancestors (⟨before, item.variables ++ after⟩ :: outer)) (laid : item.node.Laid)
    (around : ∀ frame ∈ ⟨before, after⟩ :: outer, frame.Around item.node.span) :
    LinksParts unit ancestors [item.node] linkage
      ((before ++ item.variables) :: outer.map (·.before)) (linkage.item item) := by
  cases item with
  | decl => exact Linkage.decl_links placed laid around
  | func =>
    have run := Linkage.function_links placed laid around
    simpa [Item.variables, Item.node, Linkage.item] using run

private theorem functions_link (funcs : List FuncDef) {linkage : Linkage} {before : List Declaration}
    (shows : linkage.table.Shows [before]) :
    ∃ done, (funcs.map Declaration.function).foldlM Linkage.define linkage = .ok done ∧
      done.table.Shows [before ++ funcs.map .function] ∧ done.bindings = linkage.bindings := by
  induction funcs generalizing linkage before with
  | nil => exact ⟨linkage, rfl, by simpa using shows, rfl⟩
  | cons func _ ih =>
    obtain ⟨_, defined, shown, same⟩ := @define_ok _ (.function func) _ _ _ rfl shows
    obtain ⟨done, ran, shownAll, sameAll⟩ := ih shown
    refine ⟨done, ?_, by simpa using shownAll, sameAll.trans same⟩
    rw [map_cons, foldlM_cons, defined]
    exact ran

/-- A program is linked as the rule says, unless a literal dimension has too many digits. Then only the
global scope is open. -/
theorem CompUnit.link_links (aligned : unit.Aligned) : Links unit.link (Node.unit unit).Overlong fun done =>
      done.table.Shows [unit.globalScope] ∧ done.bindings = (Node.unit unit).bindings unit [] := by
  obtain ⟨start, defined, shows, bindings⟩ := @functions_link unit.callables .empty [] SymbolTable.Shows.empty
  have run : unit.link = unit.items.foldlM Linkage.item start := by
    rw [CompUnit.link]
    change (unit.callables.map Declaration.function).foldlM Linkage.define Linkage.empty >>= _ = _
    rw [defined]
    rfl
  have placed : start.table.At unit [.unit unit]
      [⟨unit.callables.map .function, unit.items.flatMap (·.variables) ++ []⟩] :=
    ⟨by simp [Frame.all, Lexical.localScopes, CompUnit.globalScope, CompUnit.variables], shows⟩
  have items : LinksParts unit [.unit unit] (Node.unit unit).children start [unit.globalScope]
      (unit.items.foldlM Linkage.item start) := by
    refine fold_links ?_ ?_ aligned.2 placed ?_
    · intro item member linkage before after placed around
      exact Linkage.item_links placed (aligned.1 _ (mem_map_of_mem member)) around
    · intro item member declaration own
      cases item with
      | decl => exact within_decl (aligned.1 _ (mem_map_of_mem member)) own
      | func => cases own
    · intro item member frame isFrame
      rw [mem_singleton.mp isFrame]
      refine ⟨fun declaration isCallable isVariable => ?_, by simp⟩
      obtain ⟨_, -, rfl⟩ := mem_map.mp isCallable
      cases isVariable
  have whole := @LinksParts.node _ _ _ _ _ (.unit unit) rfl rfl items
  rw [run]
  unfold LinksParts at whole
  simpa [bindings, Linkage.empty] using whole

end SysYTools
