import SysYTools.Tree.Basic

/-!
Nodes: the parts of a program seen alike, whatever they are. A node has a span and children in the order
of the text, which gives walks over all parts below a node and paths down to one of them.
-/

namespace SysYTools

inductive Node where
  | unit (unit : CompUnit)
  | decl (decl : Decl)
  | varDef (var : VarDef)
  | initList (elements : List InitVal) (span : Span)
  | func (func : FuncDef)
  | param (param : Param)
  | stmt (stmt : Stmt)
  | expr (expr : Expr)

def InitVal.node : InitVal → Node
  | .expr value => .expr value
  | .list elements span => .initList elements span

def BlockItem.node : BlockItem → Node
  | .decl declaration => .decl declaration
  | .stmt statement => .stmt statement

def Item.node : Item → Node
  | .decl declaration => .decl declaration
  | .func function => .func function

def FuncDef.block (func : FuncDef) : Stmt := .block func.body func.bodySpan

namespace Node

def span : Node → Span
  | .unit program => program.span
  | .decl declaration => declaration.span
  | .varDef var => var.span
  | .initList _ span => span
  | .func function => function.span
  | .param parameter => parameter.span
  | .stmt statement => statement.span
  | .expr expression => expression.span

def children : Node → List Node
  | .unit program => program.items.map (·.node)
  | .decl declaration => declaration.defs.map .varDef
  | .varDef var => var.dims.map .expr ++ (var.init.map (·.node)).toList
  | .initList elements _ => elements.map (·.node)
  | .func function => function.params.map .param ++ [.stmt function.block]
  | .param parameter => parameter.dims.map .expr
  | .stmt (.block items _) => items.map (·.node)
  | .stmt (.assign target indices span value _) => [.expr (.lval target indices span), .expr value]
  | .stmt (.expr value _) => (value.map .expr).toList
  | .stmt (.branch condition thenPart elsePart _) => .expr condition :: .stmt thenPart :: (elsePart.map .stmt).toList
  | .stmt (.loop condition body _) => [.expr condition, .stmt body]
  | .stmt (.breakLoop _) | .stmt (.continueLoop _) => []
  | .stmt (.giveBack value _) => (value.map .expr).toList
  | .expr (.intLit _ _) | .expr (.floatLit _ _) => []
  | .expr (.lval _ indices _) => indices.map .expr
  | .expr (.call _ arguments _) => arguments.map .expr
  | .expr (.unary _ operand _) => [.expr operand]
  | .expr (.binary left _ right _) => [.expr left, .expr right]

private theorem sizeOf_initVal_node (init : InitVal) : sizeOf init.node = sizeOf init := by
  cases init <;> simp [InitVal.node]

private theorem sizeOf_blockItem_node (item : BlockItem) : sizeOf item.node = sizeOf item := by
  cases item <;> simp [BlockItem.node]

private theorem sizeOf_item_node (item : Item) : sizeOf item.node = sizeOf item := by
  cases item <;> simp [Item.node]

private theorem sizeOf_span_pos (span : Span) : 0 < sizeOf span := by
  cases span
  rw [Span.mk.sizeOf_spec]
  omega

/-- A child is a smaller node, so every walk down the tree ends. -/
theorem sizeOf_lt_of_mem_children {child node : Node} (member : child ∈ node.children) :
    sizeOf child < sizeOf node := by
  cases node with
  | unit unit =>
    obtain ⟨items, span⟩ := unit
    simp only [children, List.mem_map] at member
    obtain ⟨item, member, rfl⟩ := member
    have := List.sizeOf_lt_of_mem member
    simp [sizeOf_item_node]
    omega
  | decl decl =>
    obtain ⟨isConst, baseType, defs, span⟩ := decl
    simp only [children, List.mem_map] at member
    obtain ⟨var, member, rfl⟩ := member
    have := List.sizeOf_lt_of_mem member
    simp
    omega
  | varDef var =>
    obtain ⟨name, dims, init, span, nameSpan⟩ := var
    simp only [children, List.mem_append, List.mem_map, Option.mem_toList, Option.map_eq_some_iff] at member
    rcases member with ⟨dim, member, rfl⟩ | ⟨init, rfl, rfl⟩
    · have := List.sizeOf_lt_of_mem member
      simp
      omega
    · simp [sizeOf_initVal_node]
      omega
  | initList elements span =>
    simp only [children, List.mem_map] at member
    obtain ⟨element, member, rfl⟩ := member
    have := List.sizeOf_lt_of_mem member
    simp [sizeOf_initVal_node]
    omega
  | func func =>
    obtain ⟨returnType, name, params, body, bodySpan, span, nameSpan, typeSpan⟩ := func
    have := sizeOf_span_pos span
    simp only [children, List.mem_append, List.mem_map, List.mem_singleton] at member
    rcases member with ⟨param, member, rfl⟩ | rfl
    · have := List.sizeOf_lt_of_mem member
      simp
      omega
    · simp [FuncDef.block]
      omega
  | param param =>
    obtain ⟨baseType, name, isArray, dims, span, nameSpan⟩ := param
    simp only [children, List.mem_map] at member
    obtain ⟨dim, member, rfl⟩ := member
    have := List.sizeOf_lt_of_mem member
    simp
    omega
  | stmt stmt =>
    cases stmt with
    | block items span =>
      simp only [children, List.mem_map] at member
      obtain ⟨item, member, rfl⟩ := member
      have := List.sizeOf_lt_of_mem member
      simp [sizeOf_blockItem_node]
      omega
    | assign target indices targetSpan value span =>
      have := sizeOf_span_pos span
      simp only [children, List.mem_cons, List.not_mem_nil, or_false] at member
      rcases member with rfl | rfl <;> simp <;> omega
    | expr value span =>
      simp only [children, Option.mem_toList, Option.map_eq_some_iff] at member
      obtain ⟨value, rfl, rfl⟩ := member
      simp
      omega
    | branch condition thenPart elsePart span =>
      simp only [children, List.mem_cons, Option.mem_toList, Option.map_eq_some_iff] at member
      rcases member with rfl | rfl | ⟨elsePart, rfl, rfl⟩ <;> simp <;> omega
    | loop condition body span =>
      simp only [children, List.mem_cons, List.not_mem_nil, or_false] at member
      rcases member with rfl | rfl <;> simp <;> omega
    | breakLoop span => simp [children] at member
    | continueLoop span => simp [children] at member
    | giveBack value span =>
      simp only [children, Option.mem_toList, Option.map_eq_some_iff] at member
      obtain ⟨value, rfl, rfl⟩ := member
      simp
      omega
  | expr expr =>
    cases expr with
    | intLit value span => simp [children] at member
    | floatLit value span => simp [children] at member
    | lval reference indices span =>
      simp only [children, List.mem_map] at member
      obtain ⟨index, member, rfl⟩ := member
      have := List.sizeOf_lt_of_mem member
      simp
      omega
    | call reference arguments span =>
      simp only [children, List.mem_map] at member
      obtain ⟨argument, member, rfl⟩ := member
      have := List.sizeOf_lt_of_mem member
      simp
      omega
    | unary op operand span =>
      simp only [children, List.mem_singleton] at member
      subst member
      simp
      omega
    | binary left op right span =>
      simp only [children, List.mem_cons, List.not_mem_nil, or_false] at member
      rcases member with rfl | rfl <;> simp <;> omega

/-- A node and the nodes above it, the nearest first. -/
structure Site where
  node : Node
  ancestors : List Node

/-- A node and all parts below it, each before its own parts, with the nodes above them. -/
def sitesUnder (ancestors : List Node) (node : Node) : List Site :=
  { node, ancestors } :: node.children.attach.flatMap fun ⟨child, _⟩ => sitesUnder (node :: ancestors) child
termination_by sizeOf node
decreasing_by exact sizeOf_lt_of_mem_children ‹_›

def sites (node : Node) : List Site := node.sitesUnder []

def walk (node : Node) : List Node := node.sites.map (·.node)

def Site.parent? (site : Site) : Option Node := site.ancestors.head?

/-- The nodes from `node` down to the innermost one whose span contains a place. At each step the first
child that contains it is taken. -/
def descend (line column : Int) (node : Node) : List Site := go [] node
where
  go (ancestors : List Node) (node : Node) : List Site :=
    { node, ancestors } ::
      match _ : node.children.find? (·.span.contains line column) with
      | none => []
      | some child => go (node :: ancestors) child
  termination_by sizeOf node
  decreasing_by exact sizeOf_lt_of_mem_children (List.mem_of_find?_eq_some ‹_›)

/-- The path from `node` to the innermost part at a place, or nothing if the place is outside. -/
def pathTo (line column : Int) (node : Node) : List Site :=
  if node.span.contains line column then node.descend line column else []

end Node

end SysYTools
