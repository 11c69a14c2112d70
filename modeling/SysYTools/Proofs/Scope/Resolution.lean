import SysYTools.Proofs.Scope.Linking

/-!
What uses of names mean after linking. The uses of names follow each other in the text, so the place of a use
tells it from all others, and asking for the meaning of a use gives what the rule of lexical scoping gives.
-/

namespace SysYTools

open List

variable {binding : Binding} {linkage : Linkage} {reference : Reference} {site : Node.Site} {span : Span}

variable {unit : CompUnit} {ancestors nodes : List Node}

/-- The uses of names follow each other in the text. -/
structure Binding.Ascending (bindings : List Binding) : Prop where
  sorted : bindings.Pairwise fun left right => left.reference.span.Before right.reference.span
  ordered : ∀ binding ∈ bindings, binding.reference.span.Ordered

private theorem ascending_flatMap (sorted : nodes.Pairwise fun left right => left.span.Before right.span)
    (each : ∀ node ∈ nodes, Binding.Ascending (node.bindings unit ancestors) ∧
      ∀ binding ∈ node.bindings unit ancestors, binding.reference.span.Inside node.span) :
    Binding.Ascending (nodes.flatMap (·.bindings unit ancestors)) := by
  refine ⟨pairwise_flatMap.mpr ⟨fun node member => (each node member).1.sorted, ?_⟩, ?_⟩
  · refine sorted.imp_of_mem fun {left right} isLeft isRight order first isFirst second isSecond => ?_
    exact (order.of_inside_left ((each left isLeft).2 first isFirst)).of_inside_right
      ((each right isRight).2 second isSecond)
  · intro binding member
    obtain ⟨node, isNode, member⟩ := mem_flatMap.mp member
    exact (each node isNode).1.ordered binding member

private theorem span_mem_words (found : site.binding? unit = some binding) :
    binding.reference.span ∈ site.node.words := by
  simp only [Node.Site.binding?] at found
  split at found
  next shape =>
    cases found
    simp [shape, Node.words]
  next shape =>
    cases found
    simp [shape, Node.words]
  · cases found

theorem Node.Laid.bindings_ascending {node : Node} (laid : node.Laid) :
    Binding.Ascending (node.bindings unit ancestors) ∧
      ∀ binding ∈ node.bindings unit ancestors, binding.reference.span.Inside node.span := by
  induction laid generalizing ancestors with
  | @mk node fits _ ih =>
    have below := @ascending_flatMap unit (node :: ancestors) _ fits.sorted fun child isChild => ih child isChild
    have inside : ∀ binding ∈ node.children.flatMap (·.bindings unit (node :: ancestors)),
        ∃ child ∈ node.children, binding.reference.span.Inside child.span := by
      intro binding member
      obtain ⟨child, isChild, member⟩ := mem_flatMap.mp member
      exact ⟨child, isChild, (ih child isChild).2 binding member⟩
    rw [Node.bindings_eq]
    cases found : Site.binding? unit { node, ancestors } with
    | none =>
      refine ⟨below, fun binding member => ?_⟩
      obtain ⟨child, isChild, within⟩ := inside binding member
      exact within.trans (fits.inside child isChild)
    | some =>
      obtain ⟨ordered, within, ahead⟩ := fits.word _ (span_mem_words found)
      refine ⟨⟨pairwise_cons.mpr ⟨fun binding member => ?_, below.sorted⟩,
        forall_mem_cons.mpr ⟨ordered, below.ordered⟩⟩,
        forall_mem_cons.mpr ⟨within, fun binding member => ?_⟩⟩
      · obtain ⟨child, isChild, inner⟩ := inside binding member
        exact (ahead child isChild).of_inside_right inner
      · obtain ⟨child, isChild, inner⟩ := inside binding member
        exact inner.trans (fits.inside child isChild)

/-- The name that a variable or a call uses. -/
def Node.use? : Node → Option Reference
  | .expr (.lval reference _ _) | .expr (.call reference _ _) => some reference
  | _ => none

theorem Node.Site.exists_binding_of_use (unit : CompUnit) (isUse : site.node.use? = some reference) :
    ∃ meaning, site.binding? unit = some ⟨reference, meaning⟩ := by
  unfold Node.use? at isUse
  split at isUse
  next shape =>
    cases isUse
    exact ⟨_, by rw [Node.Site.binding?, shape]⟩
  next shape =>
    cases isUse
    exact ⟨_, by rw [Node.Site.binding?, shape]⟩
  · cases isUse

theorem Linkage.target?_of_mem (ascending : Binding.Ascending linkage.bindings)
    (member : binding ∈ linkage.bindings) : linkage.target? binding.reference = binding.target := by
  obtain ⟨before, _, split⟩ := append_of_mem member
  have sorted := ascending.sorted
  rw [split, pairwise_append] at sorted
  have missing : before.find? (·.reference == binding.reference) = none := by
    refine List.find?_eq_none.mpr fun earlier isEarlier same => ?_
    have order := sorted.2.2 earlier isEarlier binding mem_cons_self
    rw [beq_iff_eq.mp same] at order
    exact (ascending.ordered binding member).not_before order
  rw [Linkage.target?, split, List.find?_append, missing, Option.none_or,
    find?_cons_of_pos (by simp), Option.bind_some]

section

variable (aligned : unit.Aligned) (linked : unit.link = .ok linkage)
  (member : site ∈ (Node.unit unit).sites)
include aligned linked member

theorem CompUnit.target?_of_site
    (found : site.binding? unit = some binding) : linkage.target? binding.reference = binding.target := by
  have run := CompUnit.link_links aligned
  rw [linked] at run
  obtain ⟨-, -, bindings⟩ := run
  have ascending : Binding.Ascending linkage.bindings := by
    rw [bindings, Node.bindings_eq]
    exact ascending_flatMap aligned.2 fun node isItem => (aligned.1 node isItem).bindings_ascending
  refine Linkage.target?_of_mem ascending ?_
  rw [bindings]
  exact mem_filterMap.mpr ⟨site, member, found⟩

theorem CompUnit.target?_of_lval {indices : List Expr} (shape : site.node = .expr (.lval reference indices span)) :
    linkage.target? reference = Lexical.variableTarget unit site.ancestors reference := by
  have found : site.binding? unit =
      some ⟨reference, Lexical.variableTarget unit site.ancestors reference⟩ := by
    simp only [Node.Site.binding?, shape]
  exact CompUnit.target?_of_site aligned linked member found

theorem CompUnit.target?_of_call {arguments : List Expr} (shape : site.node = .expr (.call reference arguments span)) :
    linkage.target? reference = Lexical.functionTarget unit reference := by
  have found : site.binding? unit = some ⟨reference, Lexical.functionTarget unit reference⟩ := by
    simp only [Node.Site.binding?, shape]
  exact CompUnit.target?_of_site aligned linked member found

end

theorem CompUnit.link_isOk_iff (aligned : unit.Aligned) :
    (∃ linkage, unit.link = .ok linkage) ↔ ∀ part ∈ (Node.unit unit).walk, part.hasOverlongDim = false := by
  have run := CompUnit.link_links aligned
  have sound : ¬ (Node.unit unit).Overlong ↔
      ∀ part ∈ (Node.unit unit).walk, part.hasOverlongDim = false := by
    simp [Node.Overlong]
  rw [← sound]
  cases linked : unit.link with
  | error =>
    rw [linked] at run
    exact iff_of_false (by simp) (not_not.mpr run)
  | ok linkage =>
    rw [linked] at run
    exact iff_of_true ⟨linkage, rfl⟩ run.1

/-- Linking computes lexical scoping. It ends unless a dimension is a literal with too many digits; then
every variable means what the scopes around it say, every call means the first function of its name, and
only the global scope is left open. -/
theorem CompUnit.link_follows_scoping {file : String} {text : Text} {unit : CompUnit}
    (parsed : CompUnit.ofText file text = .ok unit) :
    ((∃ linkage, unit.link = .ok linkage) ↔ ∀ part ∈ (Node.unit unit).walk, part.hasOverlongDim = false) ∧
      ∀ linkage, unit.link = .ok linkage →
        (∀ site ∈ (Node.unit unit).sites, ∀ reference indices span, site.node = .expr (.lval reference indices span) →
            linkage.target? reference = Lexical.variableTarget unit site.ancestors reference) ∧
        (∀ site ∈ (Node.unit unit).sites, ∀ reference arguments span,
          site.node = .expr (.call reference arguments span) →
            linkage.target? reference = Lexical.functionTarget unit reference) ∧ linkage.table.inner = [] := by
  have aligned := CompUnit.aligned_of_ofText parsed
  refine ⟨CompUnit.link_isOk_iff aligned, fun linkage linked => ⟨?_, ?_, ?_⟩⟩
  · intro site member reference indices span shape
    exact CompUnit.target?_of_lval aligned linked member shape
  · intro site member reference arguments span shape
    exact CompUnit.target?_of_call aligned linked member shape
  · have run := CompUnit.link_links aligned
    rw [linked] at run
    simpa using run.2.1.length_eq

/-! A local variable hides a global one only from the end of its own definition on. -/

private def columns (first last : Int) : Span := ⟨"t.sy", 1, first, 1, last⟩

private def shadowingVar (column stop : Int) (name : String) (init : Option InitVal) : VarDef :=
  { name, dims := [], init, span := columns column stop, nameSpan := columns column column }

private def shadowingDecl (column stop : Int) (name : String) (init : Option InitVal) : Decl :=
  { isConst := false, baseType := .int, span := columns (column - 4) (stop + 1)
    defs := [shadowingVar column stop name init] }

private def shadowingUse (column : Int) : Expr := .lval ⟨"x", columns column column⟩ [] (columns column column)

private def shadowingFunc : FuncDef :=
  { returnType := .value .int, name := "f", params := []
    body := [.decl (shadowingDecl 19 21 "y" (some (.expr (shadowingUse 21)))),
      .decl (shadowingDecl 27 27 "x" none), .stmt (.giveBack (some (shadowingUse 36)) (columns 29 37))]
    bodySpan := columns 14 38, span := columns 7 38, nameSpan := columns 11 11, typeSpan := columns 7 9 }

private def shadowingUnit : CompUnit :=
  { items := [.decl (shadowingDecl 5 5 "x" none), .func shadowingFunc], span := columns 1 38 }

theorem CompUnit.link_follows_shadowing :
    CompUnit.ofText "t.sy" "int x;int f(){int y=x;int x;return x;}".toList = .ok shadowingUnit ∧
      ∃ linkage, shadowingUnit.link = .ok linkage ∧ linkage.table.inner = [] ∧
        (linkage.target? ⟨"x", columns 21 21⟩).map (·.span) = some (columns 5 5) ∧
        (linkage.target? ⟨"x", columns 36 36⟩).map (·.span) = some (columns 27 27) := by
  have parsed : CompUnit.ofText "t.sy" "int x;int f(){int y=x;int x;return x;}".toList =
      .ok shadowingUnit := by
    rw [String.toList_ofList]
    cbv
  obtain ⟨ends, meanings⟩ := CompUnit.link_follows_scoping parsed
  have short : ∀ part ∈ (Node.unit shadowingUnit).walk, part.hasOverlongDim = false := by
    simp [Node.walk_eq, Node.children, shadowingUnit, shadowingFunc, shadowingDecl, shadowingVar,
      shadowingUse, FuncDef.block, Item.node, BlockItem.node, InitVal.node, Node.hasOverlongDim]
  obtain ⟨linkage, linked⟩ := ends.mpr short
  obtain ⟨meanings, -, closed⟩ := meanings linkage linked
  have first := meanings ⟨.expr (shadowingUse 21),
    [.varDef (shadowingVar 19 21 "y" (some (.expr (shadowingUse 21)))),
      .decl (shadowingDecl 19 21 "y" (some (.expr (shadowingUse 21)))),
      .stmt shadowingFunc.block, .func shadowingFunc, .unit shadowingUnit]⟩
    (by simp [Node.sites, Node.sitesUnder_eq, Node.children, shadowingUnit, shadowingFunc,
      shadowingDecl, shadowingVar, shadowingUse, FuncDef.block, Item.node, BlockItem.node,
      InitVal.node]) _ _ _ rfl
  have second := meanings ⟨.expr (shadowingUse 36),
    [.stmt (.giveBack (some (shadowingUse 36)) (columns 29 37)), .stmt shadowingFunc.block,
      .func shadowingFunc, .unit shadowingUnit]⟩
    (by simp [Node.sites, Node.sitesUnder_eq, Node.children, shadowingUnit, shadowingFunc,
      shadowingDecl, shadowingVar, shadowingUse, FuncDef.block, Item.node, BlockItem.node,
      InitVal.node]) _ _ _ rfl
  refine ⟨parsed, linkage, linked, closed, ?_, ?_⟩
  · rw [first]
    cbv
  · rw [second]
    cbv

end SysYTools
