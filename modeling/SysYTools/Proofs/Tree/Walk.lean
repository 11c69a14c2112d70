import Mathlib
import SysYTools.Tree.Node

/-!
Walks over a tree, one node at a time: the walk over a node is the node itself and then the walks over its
children. What stands above a node does not change what the walk finds below it.
-/

namespace SysYTools.Node

open List

variable {ancestors : List Node} {child node part : Node} {site : Site}

/-- What holds of a node as soon as it holds of its children holds of every node. -/
theorem induction_children {motive : Node → Prop}
    (step : ∀ node : Node, (∀ child ∈ node.children, motive child) → motive node) (node : Node) : motive node :=
  step node fun child _ => induction_children step child
termination_by sizeOf node
decreasing_by exact sizeOf_lt_of_mem_children ‹_›

theorem sitesUnder_eq (ancestors : List Node) (node : Node) :
    node.sitesUnder ancestors = { node, ancestors } :: node.children.flatMap (sitesUnder (node :: ancestors)) := by
  rw [sitesUnder]
  simp [flatMap_subtype]

theorem map_node_sitesUnder (ancestors : List Node) (node : Node) :
    (node.sitesUnder ancestors).map (·.node) = node.walk := by
  induction node using induction_children generalizing ancestors with
  | step _ ih =>
    rw [walk, sites, sitesUnder_eq, sitesUnder_eq]
    simp only [map_cons, map_flatMap, List.cons.injEq, true_and]
    exact flatMap_congr fun child member => by rw [ih child member, ih child member]

theorem walk_eq (node : Node) : node.walk = node :: node.children.flatMap walk := by
  rw [walk, sites, sitesUnder_eq]
  simp only [map_cons, map_flatMap, map_node_sitesUnder]

theorem self_mem_walk (node : Node) : node ∈ node.walk := by
  rw [walk_eq]
  exact mem_cons_self

theorem mem_walk_of_child (isChild : child ∈ node.children) (member : part ∈ child.walk) : part ∈ node.walk := by
  rw [walk_eq]
  exact mem_cons_of_mem _ (mem_flatMap.mpr ⟨child, isChild, member⟩)

theorem mem_walk_trans {middle : Node} (above : middle ∈ node.walk) (below : part ∈ middle.walk) :
    part ∈ node.walk := by
  induction node using induction_children with
  | step _ ih =>
    rw [walk_eq] at above
    rcases mem_cons.mp above with rfl | above
    · exact below
    · obtain ⟨child, isChild, above⟩ := mem_flatMap.mp above
      exact mem_walk_of_child isChild (ih child isChild above)

theorem mem_walk_of_mem_sitesUnder (member : site ∈ node.sitesUnder ancestors) : site.node ∈ node.walk := by
  rw [← map_node_sitesUnder ancestors]
  exact mem_map_of_mem member

theorem mem_walk_of_mem_ancestors {above : Node} (member : site ∈ node.sitesUnder ancestors)
    (isAbove : above ∈ site.ancestors) : above ∈ ancestors ∨ above ∈ node.walk ∧ site.node ∈ above.walk := by
  induction node using induction_children generalizing ancestors with
  | step _ ih =>
    rw [sitesUnder_eq] at member
    rcases mem_cons.mp member with rfl | below
    · exact .inl isAbove
    · obtain ⟨child, isChild, member⟩ := mem_flatMap.mp below
      rcases ih child isChild member with outer | ⟨inner, under⟩
      · rcases mem_cons.mp outer with rfl | outer
        · exact .inr ⟨self_mem_walk above, mem_walk_of_child isChild (mem_walk_of_mem_sitesUnder member)⟩
        · exact .inl outer
      · exact .inr ⟨mem_walk_of_child isChild inner, under⟩

theorem expr_of_mem_children {expr : Expr} (below : child ∈ (Node.expr expr).children) :
    ∃ inner, child = .expr inner := by
  cases expr <;> simp only [children, mem_map, mem_cons, not_mem_nil, or_false] at below <;> grind

theorem suffix_ancestors (member : site ∈ node.sitesUnder ancestors) : ancestors <:+ site.ancestors := by
  induction node using induction_children generalizing ancestors with
  | step node ih =>
    rw [sitesUnder_eq] at member
    rcases mem_cons.mp member with rfl | below
    · exact suffix_rfl
    · obtain ⟨child, isChild, member⟩ := mem_flatMap.mp below
      exact (suffix_cons node ancestors).trans (ih child isChild member)

end SysYTools.Node
