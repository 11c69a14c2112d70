import SysYTools.Proofs.Scope.Resolution
import SysYTools.Proofs.Tree.Deletion
import SysYTools.Proofs.Tree.Nesting

/-!
Scopes without a variable that nothing means. The definitions of a scope follow each other in the text. So where
a name does not mean the deleted variable, either an earlier definition hides it, and hides all later ones too, or
the name stands in front of it, and then in front of all later ones too.
-/

namespace SysYTools

open List

variable {decl : Decl} {scope : List Declaration}

/-! ## Declarations -/

section Deletions

variable (name : Span)

/-- The declaration is that of the variable. -/
def Declaration.isDeleted : Declaration → Bool
  | .variable _ var => var.nameSpan == name
  | .parameter _ | .function _ => false

/-- A declaration in the program without the variable. -/
def Declaration.without : Declaration → Declaration
  | .variable decl var => .variable (decl.without name) var
  | .parameter param => .parameter param
  | .function func => .function (func.without name)

/-- A scope without the variable. -/
def Lexical.scopeWithout (scope : List Declaration) : List Declaration :=
  (scope.filter (!·.isDeleted name)).map (·.without name)

end Deletions

variable {name : Span}

@[simp] theorem Declaration.name_without (declaration : Declaration) :
    (declaration.without name).name = declaration.name := by
  cases declaration <;> rfl

@[simp] theorem Declaration.nameSpan_without (declaration : Declaration) :
    (declaration.without name).nameSpan = declaration.nameSpan := by
  cases declaration <;> rfl

@[simp] theorem Declaration.span_without (declaration : Declaration) :
    (declaration.without name).span = declaration.span := by
  cases declaration <;> rfl

/-! ## Scopes -/

theorem Decl.variables_without (decl : Decl) :
    (decl.without name).variables = Lexical.scopeWithout name decl.variables := by
  simp [Decl.variables, Decl.without, Lexical.scopeWithout, filter_map, Function.comp_def,
    Declaration.isDeleted, Declaration.without, bne]

theorem Decl.scopeWithout_of_isDeleted (deleted : decl.isDeleted name = true) :
    Lexical.scopeWithout name decl.variables = [] := by
  rw [← decl.variables_without, Decl.variables, List.isEmpty_iff.mp deleted, map_nil]

namespace Lexical

theorem scopeWithout_append (left right : List Declaration) :
    scopeWithout name (left ++ right) = scopeWithout name left ++ scopeWithout name right := by
  simp [scopeWithout]

theorem scopeWithout_items (items : List BlockItem) :
    ((items.filter (!·.isDeleted name)).map (·.without name)).flatMap (·.variables) =
      scopeWithout name (items.flatMap (·.variables)) := by
  induction items with
  | nil => rfl
  | cons first _ ih =>
    rw [flatMap_cons, scopeWithout_append, ← ih]
    cases first with
    | stmt => rfl
    | decl declaration =>
      cases deleted : declaration.isDeleted name with
      | true => simp [BlockItem.isDeleted, BlockItem.variables, deleted, Decl.scopeWithout_of_isDeleted]
      | false => simp [BlockItem.isDeleted, BlockItem.without, BlockItem.variables, deleted, Decl.variables_without]

theorem scopeWithout_func (func : FuncDef) : (func.without name).variables = scopeWithout name func.variables := by
  rw [FuncDef.variables, FuncDef.variables, scopeWithout_append, ← scopeWithout_items]
  congr 1
  simp [FuncDef.without, scopeWithout, filter_map, Function.comp_def, Declaration.isDeleted, Declaration.without]

theorem scopeWithout_unit (unit : CompUnit) : (unit.without name).variables = scopeWithout name unit.variables := by
  rw [CompUnit.variables, CompUnit.variables, CompUnit.without]
  induction unit.items with
  | nil => rfl
  | cons first _ ih =>
    rw [flatMap_cons, scopeWithout_append, ← ih]
    cases first with
    | func => rfl
    | decl declaration =>
      cases deleted : declaration.isDeleted name with
      | true => simp [Item.isDeleted, Item.variables, deleted, Decl.scopeWithout_of_isDeleted]
      | false => simp [Item.isDeleted, Item.without, Item.variables, deleted, Decl.variables_without]

theorem localScopes_without (ancestors : List Node) :
    localScopes (ancestors.map (·.without name)) = (localScopes ancestors).map (scopeWithout name) := by
  fun_induction localScopes ancestors with
  | case1 => rfl
  | case2 _ _ _ _ ih =>
    simp only [map_cons]
    rw [← scopeWithout_func, ← ih]
    rfl
  | case3 _ _ _ inner ih =>
    simp only [map_cons]
    rw [← scopeWithout_items, ← ih, ← BlockItem.allWithout_eq]
    refine localScopes_block fun func others same => ?_
    obtain ⟨node, more, rfl, isFunc, -⟩ := map_eq_cons_iff.mp same
    cases node with
    | func function => exact inner function more rfl
    | _ => cases isFunc
  | case4 _ _ ih =>
    simp only [map_cons]
    rw [← scopeWithout_func, ← ih]
    rfl
  | case5 node _ _ noBlock noFunc ih =>
    rw [← ih]
    cases node with
    | func function => exact absurd rfl (noFunc function)
    | stmt statement =>
      cases statement with
      | block items span => exact absurd rfl (noBlock items span)
      | branch _ _ elsePart => cases elsePart <;> rfl
      | _ => rfl
    | _ => rfl

/-! ## Definitions in the order of the text -/

/-- The definitions of a scope follow each other. -/
structure InOrder (scope : List Declaration) : Prop where
  sorted : scope.Pairwise fun left right => left.span.Before right.span
  ordered : ∀ declaration ∈ scope, declaration.span.Ordered

theorem InOrder.append {left right : List Declaration} (first : InOrder left) (second : InOrder right)
    (ahead : ∀ early ∈ left, ∀ late ∈ right, early.span.Before late.span) : InOrder (left ++ right) :=
  ⟨pairwise_append.mpr ⟨first.sorted, second.sorted, ahead⟩, forall_mem_append.mpr ⟨first.ordered, second.ordered⟩⟩

theorem InOrder.flatMap {α : Type} {parts : List α} {node : α → Node} {defines : α → List Declaration}
    (sorted : (parts.map node).Pairwise fun left right => left.span.Before right.span)
    (each : ∀ part ∈ parts, InOrder (defines part) ∧
      ∀ declaration ∈ defines part, declaration.span.Inside (node part).span) : InOrder (parts.flatMap defines) := by
  refine ⟨pairwise_flatMap.mpr ⟨fun part member => (each part member).1.sorted, ?_⟩, ?_⟩
  · rw [pairwise_map] at sorted
    refine sorted.imp_of_mem fun {left right} isLeft isRight order first isFirst second isSecond => ?_
    exact (order.of_inside_left ((each left isLeft).2 first isFirst)).of_inside_right
      ((each right isRight).2 second isSecond)
  · intro declaration member
    obtain ⟨part, isPart, member⟩ := mem_flatMap.mp member
    exact (each part isPart).1.ordered declaration member

theorem inOrder_decl (laid : (Node.decl decl).Laid) :
    InOrder decl.variables ∧ ∀ declaration ∈ decl.variables, declaration.span.Inside decl.span := by
  have sorted : (decl.defs.map Node.varDef).Pairwise fun left right => left.span.Before right.span := laid.fits.sorted
  rw [pairwise_map] at sorted
  refine ⟨⟨pairwise_map.mpr sorted, ?_⟩, ?_⟩
  · intro declaration member
    obtain ⟨var, isVar, rfl⟩ := mem_map.mp member
    exact (laid.child (mem_map_of_mem isVar)).fits.ordered
  · intro declaration member
    obtain ⟨_, isVar, rfl⟩ := mem_map.mp member
    exact laid.fits.inside _ (mem_map_of_mem isVar)

theorem inOrder_items {items : List BlockItem} (aligned : Node.Aligned (items.map (·.node))) :
    InOrder (items.flatMap (·.variables)) := by
  refine .flatMap aligned.2 fun item isItem => ?_
  cases item with
  | decl => exact inOrder_decl (aligned.1 _ (mem_map_of_mem isItem))
  | stmt => exact ⟨⟨.nil, by simp [BlockItem.variables]⟩, by simp [BlockItem.variables]⟩

theorem inOrder_func {func : FuncDef} (laid : (Node.func func).Laid) : InOrder func.variables := by
  obtain ⟨sorted, -, ahead⟩ := pairwise_append.mp laid.fits.sorted
  rw [pairwise_map] at sorted
  have body : (Node.stmt func.block).Laid := laid.child (by simp [Node.children])
  refine .append ⟨pairwise_map.mpr sorted, ?_⟩ (inOrder_items body.aligned) ?_
  · intro declaration member
    obtain ⟨param, isParam, rfl⟩ := mem_map.mp member
    exact (laid.child (mem_append_left _ (mem_map_of_mem isParam))).fits.ordered
  · intro early isEarly late isLocal
    obtain ⟨_, isParam, rfl⟩ := mem_map.mp isEarly
    have ahead := ahead _ (mem_map_of_mem isParam) _ (mem_singleton_self _)
    obtain ⟨item, isItem, isLocal⟩ := mem_flatMap.mp isLocal
    cases item with
    | stmt => cases isLocal
    | decl decl =>
      have isPart : Node.decl decl ∈ (Node.stmt func.block).children := mem_map_of_mem isItem
      exact (ahead.of_inside_right (body.fits.inside _ isPart)).of_inside_right
        ((inOrder_decl (body.child isPart)).2 late isLocal)

theorem inOrder_unit {unit : CompUnit} (aligned : unit.Aligned) : InOrder unit.variables := by
  refine .flatMap aligned.2 fun item isItem => ?_
  cases item with
  | decl => exact inOrder_decl (aligned.1 _ (mem_map_of_mem isItem))
  | func => exact ⟨⟨.nil, by simp [Item.variables]⟩, by simp [Item.variables]⟩

theorem inOrder_of_mem_localScopes {ancestors : List Node} (laid : ∀ node ∈ ancestors, node.Laid)
    (isScope : scope ∈ localScopes ancestors) : InOrder scope := by
  obtain ⟨above, isAbove, rfl⟩ := exists_of_mem_localScopes isScope
  have laid := laid above isAbove
  unfold scopeOf
  split
  · exact inOrder_func laid
  · exact inOrder_items laid.aligned
  · exact ⟨.nil, forall_mem_nil _⟩

/-! ## Meanings -/

theorem visible_without {reference : Reference} (inOrder : InOrder scope)
    (unused : ∀ target, visible scope reference = some target → target.isDeleted name = false) :
    visible (scopeWithout name scope) reference = (visible scope reference).map (·.without name) := by
  cases found : scope.find? (·.name == reference.name) with
  | none =>
    have missing : (scope.filter (!·.isDeleted name)).find? (·.name == reference.name) = none :=
      List.find?_eq_none.mpr fun declaration member =>
        List.find?_eq_none.mp found declaration (mem_of_mem_filter member)
    simp [visible, scopeWithout, List.find?_map, found, missing]
  | some first =>
    obtain ⟨hasName, before, after, rfl, passed⟩ := find?_eq_some_iff_append.mp found
    have skipped : (before.filter (!·.isDeleted name)).find? (·.name == reference.name) = none :=
      List.find?_eq_none.mpr fun declaration member => by simpa using passed declaration (mem_of_mem_filter member)
    have isVisible : visible (before ++ first :: after) reference =
        (some first).filter (·.span.Before reference.span) := by
      rw [visible, found]
    cases deleted : first.isDeleted name with
    | false =>
      have stays : (scopeWithout name (before ++ first :: after)).find? (·.name == reference.name) =
          some (first.without name) := by
        simp [scopeWithout, List.find?_map, skipped, deleted, hasName, List.find?_append]
      rw [isVisible, visible, stays]
      by_cases ahead : first.span.Before reference.span <;> simp [Option.filter_some, ahead]
    | true =>
      -- The deleted variable is the first of its name: the use stands in front of it.
      have early : ¬ first.span.Before reference.span := fun ahead => by
        rw [isVisible] at unused
        simp [Option.filter_some, ahead, deleted] at unused
      have later : ∀ declaration ∈ after, ¬ declaration.span.Before reference.span := by
        intro declaration member ahead
        have order := (pairwise_cons.mp (pairwise_append.mp inOrder.sorted).2.1).1 _ member
        exact early (order.trans (inOrder.ordered declaration (by simp [member])) ahead)
      rw [isVisible, Option.filter_some, if_neg (by simpa using early), Option.map_none, visible,
        Option.filter_eq_none_iff]
      intro target isFound ahead
      obtain ⟨declaration, member, rfl⟩ := mem_map.mp (mem_of_find?_eq_some isFound)
      have named : declaration.name = reference.name := by simpa using find?_some isFound
      obtain ⟨member, kept⟩ := mem_filter.mp member
      rcases mem_append.mp member with isBefore | isLater
      · simpa [named] using passed declaration isBefore
      · rcases mem_cons.mp isLater with rfl | isLater
        · simp [deleted] at kept
        · exact later declaration isLater (by simpa using ahead)

variable {unit : CompUnit} {ancestors : List Node} {reference : Reference}

private theorem findSome?_without {scopes : List (List Declaration)} (inOrder : ∀ scope ∈ scopes, InOrder scope)
    (unused : ∀ target, scopes.findSome? (visible · reference) = some target → target.isDeleted name = false) :
    (scopes.map (scopeWithout name)).findSome? (visible · reference) =
      (scopes.findSome? (visible · reference)).map (·.without name) := by
  induction scopes with
  | nil => rfl
  | cons scope _ ih =>
    obtain ⟨first, rest⟩ := forall_mem_cons.mp inOrder
    rw [map_cons, findSome?_cons, findSome?_cons]
    rw [findSome?_cons] at unused
    cases seen : visible scope reference with
    | some =>
      rw [seen] at unused
      rw [visible_without first fun other isOther => unused other (seen.symm.trans isOther), seen]
      rfl
    | none =>
      rw [seen] at unused
      rw [visible_without first (by simp [seen]), seen]
      exact ih rest unused

theorem functions_without (unit : CompUnit) : (unit.without name).functions = unit.functions.map (·.without name) := by
  rw [CompUnit.functions, CompUnit.functions, CompUnit.without]
  induction unit.items with
  | nil => rfl
  | cons first _ ih =>
    cases first with
    | func => simpa [Item.isDeleted, Item.without] using ih
    | decl declaration =>
      cases deleted : declaration.isDeleted name <;> simpa [Item.isDeleted, Item.without, deleted] using ih

theorem callables_without (unit : CompUnit) : (unit.without name).callables = unit.callables.map (·.without name) := by
  have library : Library.functions.map (·.without name) = Library.functions := rfl
  rw [CompUnit.callables, CompUnit.callables, map_append, functions_without, library]

theorem functionTarget_without :
    functionTarget (unit.without name) reference = (functionTarget unit reference).map (·.without name) := by
  rw [functionTarget, functionTarget, callables_without, List.find?_map, Option.map_map, Option.map_map]
  rfl

theorem variableTarget_without (aligned : unit.Aligned) (laid : ∀ node ∈ ancestors, node.Laid)
    (unused : ∀ target, variableTarget unit ancestors reference = some target → target.isDeleted name = false) :
    variableTarget (unit.without name) (ancestors.map (·.without name)) reference =
      (variableTarget unit ancestors reference).map (·.without name) := by
  have scopes : ∀ scope ∈ localScopes ancestors, InOrder scope := fun _ => inOrder_of_mem_localScopes laid
  have named : (unit.without name).callables.any (·.name == reference.name) =
      unit.callables.any (·.name == reference.name) := by
    rw [callables_without, any_map]
    rfl
  unfold variableTarget at unused ⊢
  rw [localScopes_without, named]
  cases seen : (localScopes ancestors).findSome? (visible · reference) with
  | some =>
    rw [seen] at unused
    rw [findSome?_without scopes fun other isOther => unused other (seen.symm.trans isOther), seen]
    rfl
  | none =>
    rw [seen] at unused
    rw [findSome?_without scopes (by simp [seen]), seen]
    simp only [Option.map_none] at unused ⊢
    split
    · rfl
    next free =>
      rw [if_neg free] at unused
      rw [scopeWithout_unit, visible_without (inOrder_unit aligned) unused]

end Lexical

/-! ## Linking -/

variable {unit : CompUnit} {linkage linkage' : Linkage} {site : Node.Site} {reference : Reference}

theorem Node.Aligned.without (aligned : unit.Aligned) : (unit.without name).Aligned := by
  have children := @Node.children_without name (Node.unit unit)
  change (Node.unit (unit.without name)).children = _ at children
  rw [CompUnit.Aligned, children]
  refine ⟨fun node isNode => ?_, ?_⟩
  · obtain ⟨before, isBefore, rfl⟩ := mem_map.mp isNode
    exact (aligned.1 before (mem_of_mem_filter isBefore)).without
  · rw [pairwise_map]
    simpa using aligned.2.sublist filter_sublist

theorem CompUnit.exists_link_without (aligned : unit.Aligned)
    (linked : unit.link = .ok linkage) : ∃ linkage', (unit.without name).link = .ok linkage' := by
  have short := (CompUnit.link_isOk_iff aligned).mp ⟨linkage, linked⟩
  refine (CompUnit.link_isOk_iff aligned.without).mpr fun part isPart => ?_
  obtain ⟨_, isSite, rfl⟩ := mem_map.mp isPart
  obtain ⟨⟨before, _⟩, isBefore, rfl⟩ := @Node.exists_of_mem_sitesUnder_without name (.unit unit) [] _ isSite
  have dims : (before.without name).hasOverlongDim = before.hasOverlongDim := by cases before <;> rfl
  rw [dims]
  exact short before (mem_map_of_mem isBefore)

theorem Linkage.not_isDeleted_of_target? {var : VarDef} (unused : linkage.uses var = false) {target : Declaration}
    (found : linkage.target? reference = some target) : target.isDeleted var.nameSpan = false := by
  obtain ⟨binding, isBinding, means⟩ := Option.bind_eq_some_iff.mp found
  have other := any_eq_false.mp unused binding (mem_of_find?_eq_some isBinding)
  rw [means] at other
  rcases target with ⟨_, _⟩ | param | func
  · simpa [Declaration.isDeleted] using other
  · rfl
  · rfl

theorem Node.Laid.above (laid : (Node.unit unit).Laid) (member : site ∈ (Node.unit unit).sites) :
    ∀ node ∈ site.ancestors, node.Laid := by
  intro node isAbove
  rcases Node.mem_walk_of_mem_ancestors member isAbove with none | ⟨isPart, -⟩
  · cases none
  · exact laid.of_mem_walk isPart

/-- Without a variable that is not used, each name outside of it means the same as before. -/
theorem CompUnit.target?_without (laid : (Node.unit unit).Laid) (linked : unit.link = .ok linkage) {var : VarDef}
    (unused : linkage.uses var = false) (linked' : (unit.without var.nameSpan).link = .ok linkage')
    (member : site ∈ (Node.unit unit).sites) (isUse : site.node.use? = some reference)
    (outside : ∀ other, .varDef other ∈ site.ancestors → other.nameSpan ≠ var.nameSpan) :
    (∃ site' ∈ (Node.unit (unit.without var.nameSpan)).sites, site'.node = site.node) ∧
      linkage'.target? reference = (linkage.target? reference).map (·.without var.nameSpan) := by
  have aligned := laid.aligned
  have above := laid.above member
  have kept := fun target => @Linkage.not_isDeleted_of_target? linkage reference var unused target
  obtain ⟨_, _⟩ := site
  unfold Node.use? at isUse
  split at isUse
  next shape =>
    cases isUse
    subst shape
    obtain ⟨-, member'⟩ := Node.mem_sitesUnder_without member rfl outside
    refine ⟨⟨_, member', rfl⟩, ?_⟩
    rw [CompUnit.target?_of_lval aligned linked member rfl] at kept ⊢
    rw [CompUnit.target?_of_lval aligned.without linked' member' rfl]
    exact Lexical.variableTarget_without aligned above kept
  next shape =>
    cases isUse
    subst shape
    obtain ⟨-, member'⟩ := Node.mem_sitesUnder_without member rfl outside
    refine ⟨⟨_, member', rfl⟩, ?_⟩
    rw [CompUnit.target?_of_call aligned linked member rfl, CompUnit.target?_of_call aligned.without linked' member' rfl]
    exact Lexical.functionTarget_without
  · cases isUse

end SysYTools
