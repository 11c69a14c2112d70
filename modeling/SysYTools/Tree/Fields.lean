import SysYTools.Tree.Node

/-!
The fields of a node under the names by which tools show them.
-/

namespace SysYTools

namespace Node

/-- What a node has under a name. -/
inductive Field where
  | text (value : String)
  | flag (value : Bool)
  | place (span : Span)
  | use (reference : Reference)
  | part (node : Option Node)
  | parts (nodes : List Node)

def Field.nodes : Field → List Node
  | .part node => node.toList
  | .parts nodes => nodes
  | _ => []

/-- The fields of a node, in the order in which they are shown. -/
def fields : Node → List (String × Field)
  | .unit program => [("items", .parts (program.items.map (·.node))), ("span", .place program.span)]
  | .decl declaration =>
    [("is_const", .flag declaration.isConst), ("btype", .text declaration.baseType.name),
      ("defs", .parts (declaration.defs.map .varDef)), ("span", .place declaration.span)]
  | .varDef var =>
    [("name", .text var.name), ("dims", .parts (var.dims.map .expr)),
      ("init", .part (var.init.map (·.node))), ("span", .place var.span),
      ("name_span", .place var.nameSpan)]
  | .initList elements span => [("elements", .parts (elements.map (·.node))), ("span", .place span)]
  | .func function =>
    [("return_type", .text function.returnType.name), ("name", .text function.name),
      ("params", .parts (function.params.map .param)), ("body", .part (some (.stmt function.block))),
      ("span", .place function.span), ("name_span", .place function.nameSpan),
      ("type_span", .place function.typeSpan)]
  | .param parameter =>
    [("btype", .text parameter.baseType.name), ("name", .text parameter.name),
      ("is_array", .flag parameter.isArray), ("dims", .parts (parameter.dims.map .expr)),
      ("span", .place parameter.span), ("name_span", .place parameter.nameSpan)]
  | .stmt (.block items span) => [("items", .parts (items.map (·.node))), ("span", .place span)]
  | .stmt (.assign target indices targetSpan value span) =>
    [("target", .part (some (.expr (.lval target indices targetSpan)))),
      ("value", .part (some (.expr value))), ("span", .place span)]
  | .stmt (.expr value span) => [("expr", .part (value.map .expr)), ("span", .place span)]
  | .stmt (.branch condition thenPart elsePart span) =>
    [("cond", .part (some (.expr condition))), ("then", .part (some (.stmt thenPart))),
      ("otherwise", .part (elsePart.map .stmt)), ("span", .place span)]
  | .stmt (.loop condition body span) =>
    [("cond", .part (some (.expr condition))), ("body", .part (some (.stmt body))), ("span", .place span)]
  | .stmt (.breakLoop span) | .stmt (.continueLoop span) => [("span", .place span)]
  | .stmt (.giveBack value span) => [("value", .part (value.map .expr)), ("span", .place span)]
  | .expr (.intLit value span) | .expr (.floatLit value span) => [("value", .text value), ("span", .place span)]
  | .expr (.lval reference indices span) =>
    [("ref", .use reference), ("indices", .parts (indices.map .expr)), ("span", .place span)]
  | .expr (.call reference arguments span) =>
    [("ref", .use reference), ("args", .parts (arguments.map .expr)), ("span", .place span)]
  | .expr (.unary op operand span) =>
    [("op", .text op.symbol), ("operand", .part (some (.expr operand))), ("span", .place span)]
  | .expr (.binary left op right span) =>
    [("left", .part (some (.expr left))), ("op", .text op.symbol),
      ("right", .part (some (.expr right))), ("span", .place span)]

/-- The fields of a node hold just its children, in their order. -/
theorem flatMap_fields_nodes (node : Node) : node.fields.flatMap (·.2.nodes) = node.children := by
  cases node with
  | stmt statement => cases statement <;> simp [fields, children, Field.nodes]
  | expr expression => cases expression <;> simp [fields, children, Field.nodes]
  | _ => simp [fields, children, Field.nodes]

end Node

end SysYTools
