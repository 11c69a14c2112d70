import SysYTools.Proofs.Tree.Layout

/-!
Programs without one of their variables. The place of its name tells a variable from all others, and a
declaration that defines no other variable goes with it. All that is left keeps its place, so the parts of the
program still nest and follow each other, and a walk meets the names that are used outside of the variable.
-/

namespace SysYTools

open List

variable {expr : Expr} {child node : Node}

section Deletions

variable (name : Span)

/-- The other variables of a declaration. -/
def Decl.without (decl : Decl) : Decl :=
  { decl with defs := decl.defs.filter (·.nameSpan != name) }

/-- The declaration defines no other variable. -/
def Decl.isDeleted (decl : Decl) : Bool := (decl.without name).defs.isEmpty

def BlockItem.isDeleted : BlockItem → Bool
  | .decl declaration => declaration.isDeleted name
  | .stmt _ => false

mutual

def Stmt.without : Stmt → Stmt
  | .block items span => .block (BlockItem.allWithout items) span
  | .branch condition thenPart none span => .branch condition thenPart.without none span
  | .branch condition thenPart (some elsePart) span => .branch condition thenPart.without (some elsePart.without) span
  | .loop condition body span => .loop condition body.without span
  | .assign target indices targetSpan value span => .assign target indices targetSpan value span
  | .expr value span => .expr value span
  | .breakLoop span => .breakLoop span
  | .continueLoop span => .continueLoop span
  | .giveBack value span => .giveBack value span

def BlockItem.allWithout : List BlockItem → List BlockItem
  | [] => []
  | first :: rest =>
    if first.isDeleted name then BlockItem.allWithout rest else first.without :: BlockItem.allWithout rest

def BlockItem.without : BlockItem → BlockItem
  | .decl declaration => .decl (declaration.without name)
  | .stmt statement => .stmt statement.without

end

def FuncDef.without (func : FuncDef) : FuncDef :=
  { func with body := (func.body.filter (!·.isDeleted name)).map (·.without name) }

def Item.isDeleted : Item → Bool
  | .decl declaration => declaration.isDeleted name
  | .func _ => false

def Item.without : Item → Item
  | .decl declaration => .decl (declaration.without name)
  | .func function => .func (function.without name)

/-- The program without the variable whose name stands at a place. -/
def CompUnit.without (unit : CompUnit) : CompUnit :=
  { unit with items := (unit.items.filter (!·.isDeleted name)).map (·.without name) }

/-- The node is the variable, or a declaration that defines no other one. -/
def Node.isDeleted : Node → Bool
  | .decl declaration => declaration.isDeleted name
  | .varDef var => var.nameSpan == name
  | _ => false

/-- What is left of a node that is not deleted. -/
def Node.without : Node → Node
  | .unit program => .unit (program.without name)
  | .decl declaration => .decl (declaration.without name)
  | .func function => .func (function.without name)
  | .stmt statement => .stmt (statement.without name)
  | .varDef var => .varDef var
  | .initList elements span => .initList elements span
  | .param parameter => .param parameter
  | .expr expression => .expr expression

end Deletions

variable {name : Span}

theorem BlockItem.allWithout_eq (items : List BlockItem) :
    BlockItem.allWithout name items = (items.filter (!·.isDeleted name)).map (·.without name) := by
  induction items with
  | nil => rfl
  | cons first _ ih =>
    rw [BlockItem.allWithout]
    cases deleted : first.isDeleted name <;> simp [deleted, ih]

@[simp] theorem Stmt.span_without (stmt : Stmt) : (stmt.without name).span = stmt.span := by
  cases stmt with
  | branch _ _ elsePart => cases elsePart <;> rfl
  | _ => rfl

namespace Node

@[simp] theorem span_without (node : Node) : (node.without name).span = node.span := by
  cases node with
  | stmt statement => exact statement.span_without
  | _ => rfl

@[simp] theorem words_without (node : Node) : (node.without name).words = node.words := by
  cases node <;> rfl

@[simp] theorem literal?_without (node : Node) : (node.without name).literal? = node.literal? := by
  cases node <;> rfl

@[simp] theorem isDeleted_blockItem (item : BlockItem) : item.node.isDeleted name = item.isDeleted name := by
  cases item <;> rfl

@[simp] theorem without_blockItem (item : BlockItem) : item.node.without name = (item.without name).node := by
  cases item <;> rfl

@[simp] theorem isDeleted_item (item : Item) : item.node.isDeleted name = item.isDeleted name := by
  cases item <;> rfl

@[simp] theorem without_item (item : Item) : item.node.without name = (item.without name).node := by
  cases item <;> rfl

@[simp] theorem isDeleted_initVal (init : InitVal) : init.node.isDeleted name = false := by
  cases init <;> rfl

@[simp] theorem without_initVal (init : InitVal) : init.node.without name = init.node := by
  cases init <;> rfl

private theorem eq_map_filter {nodes : List Node}
    (kept : ∀ node ∈ nodes, node.isDeleted name = false ∧ node.without name = node) :
    nodes = (nodes.filter (!·.isDeleted name)).map (·.without name) := by
  rw [filter_eq_self.mpr fun node member => by simp [(kept node member).1]]
  exact ((map_congr_left fun node member => (kept node member).2).trans (map_id nodes)).symm

private theorem kept_expr (isChild : child ∈ (Node.expr expr).children) :
    child.isDeleted name = false ∧ child.without name = child := by
  obtain ⟨_, rfl⟩ := expr_of_mem_children isChild
  exact ⟨rfl, rfl⟩

theorem children_without (node : Node) :
    (node.without name).children = (node.children.filter (!·.isDeleted name)).map (·.without name) := by
  cases node with
  | unit program =>
    change ((program.without name).items).map (·.node) = _
    simp [children, CompUnit.without, filter_map, Function.comp_def]
  | decl declaration =>
    change (declaration.without name).defs.map Node.varDef = _
    simp [children, Decl.without, filter_map, Function.comp_def, isDeleted, without, bne]
  | varDef var =>
    change (Node.varDef var).children = _
    refine eq_map_filter fun child isChild => ?_
    simp only [children, mem_append, mem_map, Option.mem_toList, Option.map_eq_some_iff] at isChild
    rcases isChild with ⟨dim, -, rfl⟩ | ⟨init, -, rfl⟩
    · exact ⟨rfl, rfl⟩
    · exact ⟨isDeleted_initVal init, without_initVal init⟩
  | initList =>
    refine eq_map_filter fun child isChild => ?_
    obtain ⟨init, -, rfl⟩ := mem_map.mp isChild
    exact ⟨isDeleted_initVal init, without_initVal init⟩
  | func function =>
    change function.params.map Node.param ++ [Node.stmt (function.without name).block] = _
    rw [children, filter_append, map_append,
      ← eq_map_filter fun child isChild => by obtain ⟨param, -, rfl⟩ := mem_map.mp isChild; exact ⟨rfl, rfl⟩]
    simp [FuncDef.block, FuncDef.without, isDeleted, without, Stmt.without, BlockItem.allWithout_eq]
  | param =>
    refine eq_map_filter fun child isChild => ?_
    obtain ⟨_, -, rfl⟩ := mem_map.mp isChild
    exact ⟨rfl, rfl⟩
  | expr => exact eq_map_filter fun child isChild => kept_expr isChild
  | stmt statement =>
    cases statement with
    | block items =>
      change (BlockItem.allWithout name items).map (·.node) = _
      simp [children, BlockItem.allWithout_eq, filter_map, Function.comp_def]
    | branch _ _ elsePart => cases elsePart <;> rfl
    | expr value => cases value <;> rfl
    | giveBack value => cases value <;> rfl
    | _ => rfl

/-! ## Places -/

theorem Fits.without (fits : node.Fits) : (node.without name).Fits := by
  refine ⟨by simpa using fits.ordered, ?_, ?_, ?_, by simpa using fits.literal⟩
  · intro child isChild
    rw [children_without] at isChild
    obtain ⟨before, isBefore, rfl⟩ := mem_map.mp isChild
    simpa using fits.inside before (mem_of_mem_filter isBefore)
  · rw [children_without, pairwise_map]
    simpa using fits.sorted.sublist filter_sublist
  · intro word isWord
    rw [words_without] at isWord
    obtain ⟨ordered, inside, ahead⟩ := fits.word word isWord
    refine ⟨ordered, by simpa using inside, fun child isChild => ?_⟩
    rw [children_without] at isChild
    obtain ⟨before, isBefore, rfl⟩ := mem_map.mp isChild
    simpa using ahead before (mem_of_mem_filter isBefore)

theorem Laid.without (laid : node.Laid) : (node.without name).Laid := by
  induction laid with
  | @mk node fits _ ih =>
    refine .mk fits.without fun child isChild => ?_
    rw [children_without] at isChild
    obtain ⟨before, isBefore, rfl⟩ := mem_map.mp isChild
    exact ih before (mem_of_mem_filter isBefore)

/-! ## Walks -/

theorem exists_of_mem_sitesUnder_without {node : Node} {ancestors : List Node} {site : Site}
    (member : site ∈ (node.without name).sitesUnder (ancestors.map (·.without name))) :
    ∃ before ∈ node.sitesUnder ancestors,
      site = ⟨before.node.without name, before.ancestors.map (·.without name)⟩ := by
  induction node using induction_children generalizing ancestors with
  | step node ih =>
    rw [sitesUnder_eq, children_without] at member
    rw [sitesUnder_eq]
    rcases mem_cons.mp member with rfl | below
    · exact ⟨_, mem_cons_self, rfl⟩
    · obtain ⟨_, isChild, member⟩ := mem_flatMap.mp below
      obtain ⟨original, isOriginal, rfl⟩ := mem_map.mp isChild
      have isChild := mem_of_mem_filter isOriginal
      obtain ⟨before, isBefore, rfl⟩ := @ih original isChild (node :: ancestors) member
      exact ⟨before, mem_cons_of_mem _ (mem_flatMap.mpr ⟨original, isChild, isBefore⟩), rfl⟩

private theorem not_isDeleted_of_child (isChild : child ∈ node.children)
    (kept : child.isDeleted name = false) (other : ∀ var, node = .varDef var → var.nameSpan ≠ name) :
    node.isDeleted name = false := by
  cases node with
  | decl declaration =>
    obtain ⟨var, isVar, rfl⟩ := mem_map.mp isChild
    have stays : var ∈ (declaration.without name).defs := mem_filter.mpr ⟨isVar, by simpa [isDeleted] using kept⟩
    simpa [isDeleted, Decl.isDeleted] using ne_nil_of_mem stays
  | varDef var => simpa [isDeleted] using other var rfl
  | _ => rfl

theorem mem_sitesUnder_without {part : Node} {ancestors above : List Node}
    (member : ⟨part, above⟩ ∈ node.sitesUnder ancestors) (kept : part.isDeleted name = false)
    (outside : ∀ var, .varDef var ∈ above → var.nameSpan ≠ name) : node.isDeleted name = false ∧
      ⟨part.without name, above.map (·.without name)⟩ ∈
        (node.without name).sitesUnder (ancestors.map (·.without name)) := by
  induction node using induction_children generalizing ancestors with
  | step node ih =>
    rw [sitesUnder_eq] at member
    rcases mem_cons.mp member with same | below
    · obtain ⟨rfl, rfl⟩ := Site.mk.inj same
      rw [sitesUnder_eq]
      exact ⟨kept, mem_cons_self⟩
    · obtain ⟨child, isChild, member⟩ := mem_flatMap.mp below
      obtain ⟨kept, member'⟩ := ih child isChild member
      have isAbove : node ∈ above := (suffix_ancestors member).subset mem_cons_self
      refine ⟨not_isDeleted_of_child isChild kept fun var same => outside var (same ▸ isAbove), ?_⟩
      rw [sitesUnder_eq, children_without]
      refine mem_cons_of_mem _ (mem_flatMap.mpr ⟨child.without name, ?_, member'⟩)
      exact mem_map_of_mem (mem_filter.mpr ⟨isChild, by simp [kept]⟩)

end Node

end SysYTools
