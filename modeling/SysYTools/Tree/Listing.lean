import SysYTools.Scope.Linkage
import SysYTools.Tree.Fields
import SysYTools.Tree.Kind
import SysYTools.Value

/-!
The tree of a program as lines of text, one for each node and each field. Uses of names tell whether they
mean something; places in the text are left out.
-/

namespace SysYTools

namespace Node

private theorem sizeOf_lt_of_mem_field {node child : Node} {name : String} {field : Field}
    (member : (name, field) ∈ node.fields) (inside : child ∈ field.nodes) : sizeOf child < sizeOf node := by
  apply sizeOf_lt_of_mem_children
  rw [← flatMap_fields_nodes]
  exact List.mem_flatMap.mpr ⟨(name, field), member, inside⟩

private def margin (depth : Nat) : String := String.ofList (List.replicate (2 * depth) ' ')

private def useLine (linkage : Linkage) (reference : Reference) : String :=
  let state := if (linkage.target? reference).isSome then "resolved" else "unresolved"
  s!"Reference {Value.quote reference.name} ({state})"

def listing (linkage : Linkage) (depth : Nat) (node : Node) : List String :=
  (margin depth ++ node.kind.name) ::
    node.fields.attach.flatMap fun ⟨(name, field), _⟩ =>
      let head := margin (depth + 1) ++ name ++ ":"
      match field with
      | .text value => [head ++ " " ++ Value.quote value]
      | .flag value => [head ++ " " ++ Value.display (.bool value)]
      | .place _ => []
      | .use reference => [head, margin (depth + 2) ++ useLine linkage reference]
      | .part none => []
      | .part (some child) => head :: listing linkage (depth + 2) child
      | .parts [] => [head ++ " []"]
      | .parts nodes => head :: nodes.attach.flatMap fun ⟨child, _⟩ => listing linkage (depth + 2) child
termination_by sizeOf node
decreasing_by
  · exact sizeOf_lt_of_mem_field ‹(name, Field.part (some child)) ∈ node.fields› (by simp [Field.nodes])
  · exact sizeOf_lt_of_mem_field ‹(name, Field.parts nodes) ∈ node.fields› ‹child ∈ nodes›

end Node

end SysYTools
