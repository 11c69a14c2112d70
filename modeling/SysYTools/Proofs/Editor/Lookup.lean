import SysYTools.Editor.Hover
import SysYTools.Proofs.Editor.Notice

/-!
The node under a cursor. A descent takes at each step the first part that contains the place, and a part still
contains the place right behind its last character. The parts of a program nest and follow each other, so only a part
that ends right in front of a name can keep a cursor at the start of the name from it.
-/

namespace SysYTools

open List Grammar Lexis

variable {reference : Reference} {file : String} {document : Document} {position : Position}
variable {child : Node} {declaration target : Declaration} {func : FuncDef} {scope : List Declaration}
  {text : Text} {tokens words : List Token} {unit : CompUnit}

/-! ## Places in spans -/

namespace Span

variable {span inner outer : Span} {line column start : Int}

theorem contains_iff : span.contains line column = true ↔
    span.first ≤ toLex (line, column) ∧ toLex (line, column) ≤ toLex (span.endLine, span.endColumn + 1) := by
  simp [contains, first, Prod.Lex.toLex_le_toLex]

theorem Inside.contains (inside : inner.Inside outer) (within : inner.contains line column = true) :
    outer.contains line column = true := by
  simp only [Inside, contains_iff, first, last, Prod.Lex.toLex_le_toLex] at inside within ⊢
  omega

theorem ends_of_contains (ahead : span.last < toLex (line, start)) (reached : start ≤ column)
    (within : span.contains line column = true) :
    column = start ∧ span.endLine = line ∧ span.endColumn = start - 1 := by
  simp only [contains_iff, first, last, Prod.Lex.toLex_le_toLex, Prod.Lex.toLex_lt_toLex] at ahead within
  omega

theorem contains_of_ends (ordered : span.Ordered) (sameLine : span.endLine = line)
    (ends : span.endColumn = column - 1) : span.contains line column = true := by
  simp only [Ordered, contains_iff, first, last, Prod.Lex.toLex_le_toLex] at ordered ⊢
  omega

end Span

/-! ## Descents -/

namespace Node

variable {line column : Int} {ancestors : List Node} {node : Node} {site : Site}

theorem descend_go_eq : descend.go line column ancestors node =
    { node, ancestors } ::
      match node.children.find? (·.span.contains line column) with
      | none => []
      | some child => descend.go line column (node :: ancestors) child := by
  rw [descend.go]
  congr 1
  split
  next missing => rw [missing]
  next found => rw [found]

theorem getLast?_descend_of_none (missing : ∀ child ∈ node.children, child.span.contains line column = false) :
    (descend.go line column ancestors node).getLast? = some { node, ancestors } := by
  have none : node.children.find? (·.span.contains line column) = none :=
    List.find?_eq_none.mpr fun child isChild => by simp [missing child isChild]
  rw [descend_go_eq, none]
  rfl

theorem getLast?_descend_of_some (found : node.children.find? (·.span.contains line column) = some child) :
    (descend.go line column ancestors node).getLast? =
      (descend.go line column (node :: ancestors) child).getLast? := by
  rw [descend_go_eq, found]
  simp only
  rw [descend_go_eq]
  exact getLast?_cons_cons

theorem mem_sitesUnder_of_mem_descend (member : site ∈ descend.go line column ancestors node) :
    site ∈ node.sitesUnder ancestors := by
  induction node using induction_children generalizing ancestors with
  | step _ ih =>
    rw [descend_go_eq] at member
    rw [sitesUnder_eq]
    rcases mem_cons.mp member with rfl | below
    · exact mem_cons_self
    · split at below
      · cases below
      next child found =>
        have isChild := mem_of_find?_eq_some found
        exact mem_cons_of_mem _ (mem_flatMap.mpr ⟨child, isChild, ih child isChild below⟩)

theorem Laid.getLast?_descend (laid : node.Laid) (member : site ∈ node.sitesUnder ancestors)
    (within : site.node.span.contains line column = true)
    (clear : ∀ part ∈ node.walk, part.span.Before site.node.span → part.span.contains line column = false)
    (lowest : ∀ child ∈ site.node.children, child.span.contains line column = false) :
    (descend.go line column ancestors node).getLast? = some site := by
  induction laid generalizing ancestors with
  | @mk node fits below ih =>
    rw [sitesUnder_eq] at member
    rcases mem_cons.mp member with rfl | member
    · exact getLast?_descend_of_none lowest
    · obtain ⟨child, isChild, member⟩ := mem_flatMap.mp member
      obtain ⟨before, after, split⟩ := append_of_mem isChild
      have inside := (((below child isChild).sites_nodup (node :: ancestors)).2 site member).2
      have sorted := fits.sorted
      rw [split, pairwise_append] at sorted
      have found : node.children.find? (·.span.contains line column) = some child := by
        refine find?_eq_some_iff_append.mpr ⟨inside.contains within, before, after, split, ?_⟩
        intro earlier isEarlier
        have order := sorted.2.2 earlier isEarlier child mem_cons_self
        have isPart : earlier ∈ node.walk :=
          mem_walk_of_child (split ▸ mem_append_left _ isEarlier) (self_mem_walk earlier)
        simp [clear earlier isPart (order.of_inside_right inside)]
      rw [getLast?_descend_of_some found]
      exact ih child isChild member fun part isPart => clear part (mem_walk_of_child isChild isPart)

theorem Laid.not_ends_of_getLast?_descend (laid : node.Laid)
    (reached : (descend.go line column ancestors node).getLast? = some site)
    (starts : site.node.span.first = toLex (line, column)) {part : Node} (isPart : part ∈ node.walk)
    (other : part ∉ site.ancestors) : ¬ (part.span.endLine = line ∧ part.span.endColumn = column - 1) := by
  rintro ⟨_, ends⟩
  have endsAhead : part.span.last < toLex (line, column) := by
    simp only [Span.last, Prod.Lex.toLex_lt_toLex]
    omega
  induction laid generalizing ancestors with
  | @mk node fits below ih =>
    have ordered : ∀ child ∈ node.children, part ∈ child.walk →
        part.span.Ordered ∧ part.span.Inside child.span := by
      intro child isChild inChild
      rw [← map_node_sitesUnder []] at inChild
      obtain ⟨partSite, isSite, rfl⟩ := mem_map.mp inChild
      exact ((below child isChild).sites_nodup []).2 partSite isSite
    rw [walk_eq] at isPart
    cases found : node.children.find? (·.span.contains line column) with
    | none =>
      rw [descend_go_eq, found] at reached
      obtain rfl : (⟨node, ancestors⟩ : Site) = site := by simpa using reached
      rcases mem_cons.mp isPart with rfl | isPart
      · exact absurd (starts ▸ fits.ordered) (not_le.mpr endsAhead)
      · obtain ⟨child, isChild, inChild⟩ := mem_flatMap.mp isPart
        obtain ⟨partOrdered, inside⟩ := ordered child isChild inChild
        have start := (inside.trans (fits.inside child isChild)).1.trans partOrdered
        exact absurd (starts ▸ start) (not_le.mpr endsAhead)
    | some child =>
      rw [getLast?_descend_of_some found] at reached
      have isChild := mem_of_find?_eq_some found
      have member := mem_sitesUnder_of_mem_descend (mem_of_getLast? reached)
      have siteInside := (((below child isChild).sites_nodup (node :: ancestors)).2 site member).2
      rcases mem_cons.mp isPart with rfl | isPart
      · exact other ((suffix_ancestors member).subset mem_cons_self)
      · obtain ⟨holder, isHolder, inHolder⟩ := mem_flatMap.mp isPart
        obtain ⟨partOrdered, inside⟩ := ordered holder isHolder inHolder
        obtain ⟨-, _, _, split, passed⟩ := find?_eq_some_iff_append.mp found
        have sorted := fits.sorted
        rw [split, pairwise_append, pairwise_cons] at sorted
        rw [split] at isHolder
        rcases mem_append.mp isHolder with earlier | later
        · -- The part that holds it ends in front of the node, and no earlier than the part itself.
          have order := (sorted.2.2 holder earlier child mem_cons_self).of_inside_right siteInside
          have holderOrdered := (below holder (split ▸ isHolder)).fits.ordered
          have holds : holder.span.contains line column = true := by
            rw [Span.Before, starts] at order
            have reaches := inside.2
            simp only [Span.last, Prod.Lex.toLex_lt_toLex, Prod.Lex.toLex_le_toLex] at order reaches
            exact Span.contains_of_ends holderOrdered (by omega) (by omega)
          simpa [holds] using passed holder earlier
        rcases mem_cons.mp later with rfl | later
        · exact ih holder isChild reached inHolder
        · have order := ((sorted.2.1.1 holder later).of_inside_left siteInside).of_inside_right inside
          have siteOrdered := (((below child isChild).sites_nodup (node :: ancestors)).2 site member).1
          have behind := (siteOrdered.trans order.le).trans partOrdered
          exact absurd (starts ▸ behind) (not_le.mpr endsAhead)

/-! ## Uses of names and their words -/

/-- A use starts with its name, and a bracket stands between the name and each part of the use. -/
private structure Opens (node : Node) (reference : Reference) : Prop where
  first : node.span.first = reference.span.first
  gap : ∀ child ∈ node.children, ∃ mark : Span, mark.Ordered ∧ reference.span.Before mark ∧ mark.Before child.span

private theorem Opens.of_bracket {name opening : Token} {marks : List Landmark}
    (sorted : Sorted (name :: opening :: tokens)) (first : node.span.first = name.span.first)
    (row : Row tokens marks) (parts : (node.children.map Landmark.node).Sublist marks) :
    node.Opens ⟨name.value, name.span⟩ := by
  have whole : Row (name :: opening :: tokens) _ := row.cons.cons
  obtain ⟨behindName, follow⟩ := pairwise_cons.mp (whole.follow sorted)
  have ordered := whole.ordered sorted (.word opening.span) (mem_cons_of_mem _ mem_cons_self)
  refine ⟨first, fun child isChild => ⟨opening.span, ordered, behindName _ mem_cons_self, ?_⟩⟩
  exact (pairwise_cons.mp follow).1 (.node child) (parts.subset (mem_map_of_mem isChild))

private theorem opens_of_exprAt {level : Nat} {expr : Expr} (derived : ExprAt level tokens expr)
    (sorted : Sorted tokens) (isUse : (Node.expr expr).use? = some reference) : (Node.expr expr).Opens reference := by
  induction derived using ExprAt.rec (motive_2 := fun _ _ _ _ _ => True)
    (motive_3 := fun _ _ _ => True) with
  | tighter _ _ ih => exact ih sorted isUse
  | binary | unary | intLit | floatLit => cases isUse
  | lval _ inside =>
    cases isUse
    cases inside with
    | nil => exact ⟨rfl, by simp [children]⟩
    | cons _ index _ more =>
      obtain ⟨_, row, parts, -⟩ := more.row
      exact .of_bracket sorted rfl (index.row.append row.skip) (parts.cons_cons _)
  | callNone =>
    cases isUse
    exact ⟨rfl, by simp [children]⟩
  | call _ _ inside =>
    cases isUse
    exact .of_bracket sorted rfl (inside.row.append .token) (sublist_append_left _ _)
  | paren _ _ _ ih =>
    obtain ⟨-, inner, -⟩ := sorted_cons.mp sorted
    exact ih (sorted_append.mp inner).1 isUse
  | _ => trivial

theorem use?_mem_names (isUse : node.use? = some reference) : reference ∈ node.names := by
  unfold use? at isUse
  split at isUse
  all_goals simp_all [names]

theorem opens_of_derived (derived : node.DerivedIn tokens) (sorted : Sorted tokens)
    (isUse : node.use? = some reference) : node.Opens reference := by
  obtain ⟨_, ⟨_, _, around⟩, derived⟩ := derived
  rw [← around] at sorted
  have inOrder := (sorted_append.mp (sorted_append.mp sorted).1).2.1
  cases derived with
  | expr value => exact opens_of_exprAt value inOrder isUse
  | _ => cases isUse

end Node

/-! ## Cursors on words -/

theorem Lexis.Stands.positionAt_offsetAt {word : Token} {before value : Text}
    (stands : Stands file document.text word before value) (sameLine : (position.line : Int) + 1 = word.span.startLine)
    (low : word.span.startColumn ≤ position.character + 1) (high : position.character ≤ word.span.endColumn) :
    document.positionAt (document.offsetAt position) = position := by
  rw [stands.span_eq] at sameLine low high
  dsimp only at sameLine low high
  obtain ⟨extra, within, rfl⟩ : ∃ extra ≤ value.length,
      position = ⟨before.count '\n', before.lastLine.length + extra⟩ := by
    obtain ⟨_, character⟩ := position
    dsimp only at sameLine low high
    exact ⟨character - before.lastLine.length, by omega, by rw [Position.mk.injEq]; omega⟩
  have plain : '\n' ∉ value.take extra := fun member => stands.isToken.no_feed (mem_of_mem_take member)
  obtain ⟨after, split⟩ : before ++ value.take extra <+: document.text :=
    ((prefix_append_right_inj _).mpr ( take_prefix _ _)).trans stands.within
  obtain ⟨uri, text⟩ := document
  obtain rfl : before ++ value.take extra ++ after = text := split
  have place := Document.positionAt_length uri (before ++ value.take extra) after
  rw [Text.lastLine_append_of_no_feed before plain, count_append, count_eq_zero.mpr plain,
    length_append, length_append, length_take_of_le within, Nat.add_zero] at place
  rw [← place, Document.offsetAt_positionAt _ (by simp; omega)]

theorem Program.siteAt_eq {program : Program} (steady : document.positionAt (document.offsetAt position) = position) :
    program.siteAt document position =
      if (Node.unit program.unit).span.contains (position.line + 1) (position.character + 1) then
        (Node.descend.go (position.line + 1) (position.character + 1) [] (.unit program.unit)).getLast? else none := by
  rw [siteAt, pathAt, Document.positionNear, Int.toNat_natCast, steady, Node.pathTo, apply_ite List.getLast?]
  rfl

/-! ## Declarations and their nodes -/

def Declaration.node : Declaration → Node
  | .variable _ var => .varDef var
  | .parameter param => .param param
  | .function func => .func func

theorem Declaration.name_mem_names (declaration : Declaration) :
    ⟨declaration.name, declaration.nameSpan⟩ ∈ declaration.node.names := by
  cases declaration <;> exact mem_singleton_self _

private theorem node_mem_walk_decl {decl : Decl} (member : declaration ∈ decl.variables) :
    declaration.node ∈ (Node.decl decl).walk := by
  obtain ⟨_, isVar, rfl⟩ := mem_map.mp member
  exact Node.mem_walk_of_child (mem_map_of_mem isVar) (Node.self_mem_walk _)

private theorem node_mem_walk_items {items : List BlockItem} {span : Span}
    (member : declaration ∈ items.flatMap (·.variables)) :
    declaration.node ∈ (Node.stmt (.block items span)).walk := by
  obtain ⟨item, isItem, member⟩ := mem_flatMap.mp member
  cases item with
  | decl => exact Node.mem_walk_of_child (mem_map_of_mem isItem) (node_mem_walk_decl member)
  | stmt => cases member

private theorem node_mem_walk_func (member : declaration ∈ func.variables) :
    declaration.node ∈ (Node.func func).walk := by
  rcases mem_append.mp member with isParameter | isLocal
  · obtain ⟨_, isParam, rfl⟩ := mem_map.mp isParameter
    exact Node.mem_walk_of_child (mem_append_left _ (mem_map_of_mem isParam)) (Node.self_mem_walk _)
  · exact Node.mem_walk_of_child (mem_append_right _ (mem_singleton_self _))
      (node_mem_walk_items isLocal)

private theorem node_mem_walk_unit (member : declaration ∈ unit.variables) :
    declaration.node ∈ (Node.unit unit).walk := by
  obtain ⟨item, isItem, member⟩ := mem_flatMap.mp member
  cases item with
  | decl => exact Node.mem_walk_of_child (mem_map_of_mem isItem) (node_mem_walk_decl member)
  | func => cases member

private theorem node_mem_walk_scope {ancestors : List Node} (isScope : scope ∈ Lexical.localScopes ancestors)
    (member : declaration ∈ scope) : ∃ above ∈ ancestors, declaration.node ∈ above.walk := by
  obtain ⟨above, isAbove, rfl⟩ := Lexical.exists_of_mem_localScopes isScope
  refine ⟨above, isAbove, ?_⟩
  unfold Lexical.scopeOf at member
  split at member
  · exact node_mem_walk_func member
  · exact node_mem_walk_items member
  · cases member

private theorem mem_of_visible (found : Lexical.visible scope reference = some target) :
    target ∈ scope ∧ target.name = reference.name := by
  obtain ⟨found, -⟩ := Option.filter_eq_some_iff.mp found
  exact ⟨mem_of_find?_eq_some found, by simpa using find?_some found⟩

theorem Node.Site.node_of_binding {site : Node.Site} (member : site ∈ (Node.unit unit).sites)
    (found : site.binding? unit = some ⟨reference, some target⟩) :
    target.name = reference.name ∧
      (target.node ∈ (Node.unit unit).walk ∨ ∃ func ∈ Library.functions, target = .function func) := by
  have above : ∀ scope ∈ Lexical.localScopes site.ancestors, ∀ declaration ∈ scope,
      declaration.node ∈ (Node.unit unit).walk := by
    intro scope isScope declaration isMember
    obtain ⟨above, isAbove, inside⟩ := node_mem_walk_scope isScope isMember
    rcases Node.mem_walk_of_mem_ancestors member isAbove with none | ⟨isPart, -⟩
    · cases none
    · exact Node.mem_walk_trans isPart inside
  simp only [binding?] at found
  split at found
  · obtain ⟨rfl, meaning⟩ := Binding.mk.inj (Option.some.inj found)
    unfold Lexical.variableTarget at meaning
    split at meaning
    next declaration isLocal =>
      cases meaning
      obtain ⟨scope, isScope, seen⟩ := exists_of_findSome?_eq_some isLocal
      obtain ⟨isMember, sameName⟩ := mem_of_visible seen
      exact ⟨sameName, .inl (above scope isScope _ isMember)⟩
    · split at meaning
      · cases meaning
      · obtain ⟨isMember, sameName⟩ := mem_of_visible meaning
        exact ⟨sameName, .inl (node_mem_walk_unit isMember)⟩
  · obtain ⟨rfl, meaning⟩ := Binding.mk.inj (Option.some.inj found)
    obtain ⟨func, isFunc, rfl⟩ := Option.map_eq_some_iff.mp meaning
    refine ⟨by simpa [Declaration.name] using find?_some isFunc, ?_⟩
    rcases mem_append.mp (mem_of_find?_eq_some isFunc) with own | library
    · obtain ⟨item, isItem, isOwn⟩ := mem_filterMap.mp own
      cases item with
      | decl => cases isOwn
      | func =>
        cases isOwn
        exact .inl (Node.mem_walk_of_child (mem_map_of_mem isItem) (Node.self_mem_walk _))
    · exact .inr ⟨func, library, rfl⟩
  · cases found

theorem Library.isLibrary_of_mem (member : func ∈ Library.functions) : func.isLibrary = true := by
  have all : Library.functions.all (·.isLibrary) = true := by decide
  exact all_eq_true.mp all func member

theorem CompUnit.Source.file_func (source : unit.Source file text words)
    (member : .func func ∈ (Node.unit unit).walk) : func.span.file = file := by
  rcases source.derived.of_mem_walk member with same | ⟨_, inside, derived⟩
  · cases same
  · cases derived with
    | func defines =>
      cases defines with
      | @mk type =>
        obtain ⟨_, _, stands⟩ := source.stands type (inside.subset mem_cons_self)
        exact congrArg Span.file stands.span_eq

/-! ## From a cursor to a declaration -/

section

variable {file : String} {document : Document} {program : Program} {site : Node.Site} {reference : Reference}
  {position : Position}

/-- A cursor in a name, behind its first character, is on the use of the name. At the start of the name it is so
unless a part in front ends there. -/
theorem Program.siteAt_of_use (parsed : CompUnit.ofText file document.text = .ok program.unit)
    (member : site ∈ (Node.unit program.unit).sites) (isUse : site.node.use? = some reference)
    (sameLine : (position.line : Int) + 1 = reference.span.startLine)
    (low : reference.span.startColumn ≤ position.character + 1)
    (high : position.character + 1 ≤ reference.span.endColumn + 1) :
    program.siteAt document position = some site ↔ ((position.character : Int) + 1 = reference.span.startColumn →
        ∀ part ∈ (Node.unit program.unit).walk, part ∉ site.ancestors →
          ¬ (part.span.endLine = reference.span.startLine ∧
            part.span.endColumn = reference.span.startColumn - 1)) := by
  obtain ⟨words, source⟩ := CompUnit.exists_source parsed
  have isPart := Node.mem_walk_of_mem_sitesUnder member
  obtain ⟨token, isToken, rfl⟩ := source.written _ isPart reference (Node.use?_mem_names isUse)
  dsimp only at sameLine low high ⊢
  obtain ⟨_, _, stands⟩ := source.stands token isToken
  have derived : site.node.DerivedIn words := by
    rcases source.derived.of_mem_walk isPart with same | derived
    · rw [same] at isUse
      cases isUse
    · exact derived
  have opens := Node.opens_of_derived derived source.sorted isUse
  have oneLine : token.span.endLine = token.span.startLine := by rw [stands.span_eq]
  have fits := (source.laid.of_mem_walk isPart).fits
  have onName : token.span.contains (position.line + 1) (position.character + 1) = true := by
    rw [Span.contains_iff, Span.first, Prod.Lex.toLex_le_toLex, Prod.Lex.toLex_le_toLex]
    dsimp only
    omega
  have nameInside : token.span.Inside site.node.span :=
    (fits.word _ (Node.span_mem_words_of_mem_names (Node.use?_mem_names isUse))).2.1
  have within := nameInside.contains onName
  have inUnit := ((source.laid.sites_nodup []).2 site member).2.contains within
  rw [siteAt_eq (stands.positionAt_offsetAt sameLine low (by omega)), if_pos inUnit]
  constructor
  · intro reached atStart part inWalk other
    have starts : site.node.span.first = toLex ((position.line : Int) + 1, (position.character : Int) + 1) := by
      rw [opens.first, Span.first, atStart, sameLine]
    rw [← sameLine, ← atStart]
    exact source.laid.not_ends_of_getLast?_descend reached starts inWalk other
  · intro clear
    refine source.laid.getLast?_descend member within (fun part inWalk ahead => ?_) fun child isChild => ?_
    · refine Bool.eq_false_iff.mpr fun holds => ?_
      rw [Span.Before, opens.first, Span.first] at ahead
      rw [sameLine] at holds
      obtain ⟨atStart, endLine, endColumn⟩ := Span.ends_of_contains ahead low holds
      refine clear atStart part inWalk (fun isAbove => ?_) ⟨endLine, endColumn⟩
      -- A node above reaches over the name, so it does not end in front of it.
      rcases Node.mem_walk_of_mem_ancestors member isAbove with none | ⟨isPart, under⟩
      · cases none
      · have around := (source.laid.of_mem_walk isPart).inside_of_mem_walk under
        exact (ahead.trans_le (stands.ordered.trans (nameInside.2.trans around.2))).false
    · obtain ⟨_, ordered, behind, ahead⟩ := opens.gap child isChild
      refine Bool.eq_false_iff.mpr fun holds => ?_
      simp only [Span.contains_iff, Span.Ordered, Span.Before, Span.first, Span.last, Prod.Lex.toLex_le_toLex,
        Prod.Lex.toLex_lt_toLex] at holds ordered behind ahead
      omega

theorem Program.definition_of_use (reached : program.siteAt document position = some site)
    (isUse : site.node.use? = some reference) :
    program.definition document position =
      match program.linkage.target? reference with
      | some target => if target.isLibrary then .ok none else some <$> target.nameSpan.toRange
      | none => .ok none := by
  unfold Node.use? at isUse
  split at isUse
  next shape =>
    cases isUse
    cases found : program.linkage.target? _ <;> simp only [definition, reached, Option.map_some, shape, found]
  next shape =>
    cases isUse
    cases found : program.linkage.target? _ <;> simp only [definition, reached, Option.map_some, shape, found]
  · cases isUse

theorem Program.target_of_use (parsed : CompUnit.ofText file document.text = .ok program.unit)
    (linked : program.unit.link = .ok program.linkage) (member : site ∈ (Node.unit program.unit).sites)
    (isUse : site.node.use? = some reference) (resolved : program.linkage.target? reference = some target) :
    target.name = reference.name ∧ (target.node ∈ (Node.unit program.unit).walk ∨
      ∃ func ∈ Library.functions, target = .function func) := by
  obtain ⟨meaning, found⟩ := Node.Site.exists_binding_of_use program.unit isUse
  have same := CompUnit.target?_of_site (CompUnit.aligned_of_ofText parsed) linked member found
  obtain rfl : some target = meaning := resolved.symm.trans same
  exact Node.Site.node_of_binding member found

theorem CompUnit.Source.not_isLibrary (source : unit.Source file text words) (own : file ≠ Library.file)
    (member : target.node ∈ (Node.unit unit).walk) : target.isLibrary = false := by
  cases target with
  | function func =>
    have isFile : func.span.file = file := source.file_func member
    simpa [Declaration.isLibrary, FuncDef.isLibrary, isFile] using own
  | _ => rfl

/-- The name under a cursor is found, and its declaration from there. A cursor behind the first character of a name
is on the variable or the call with that name; at the start of the name it is so if no other part ends there. What
the name means is a function of the library, which stands in no text, or a part of the program, and where that is
declared the text holds the name. -/
theorem Program.lookup_finds_name (parsed : CompUnit.ofText file document.text = .ok program.unit)
    (linked : program.unit.link = .ok program.linkage) (member : site ∈ (Node.unit program.unit).sites)
    (isUse : site.node.use? = some reference) :
    reference.span.startLine = reference.span.endLine ∧
    (∀ position : Position, (position.line : Int) + 1 = reference.span.startLine →
      reference.span.startColumn < position.character + 1 →
      position.character + 1 ≤ reference.span.endColumn + 1 → program.siteAt document position = some site) ∧
    (∀ position : Position, (position.line : Int) + 1 = reference.span.startLine →
      (position.character : Int) + 1 = reference.span.startColumn → (program.siteAt document position = some site ↔
          ∀ part ∈ (Node.unit program.unit).walk, part ∉ site.ancestors →
            ¬ (part.span.endLine = reference.span.startLine ∧ part.span.endColumn = reference.span.startColumn - 1))) ∧
    ∀ position : Position, program.siteAt document position = some site →
      (program.linkage.target? reference = none → program.definition document position = .ok none) ∧
      ∀ target, program.linkage.target? reference = some target →
        (target.isLibrary = true → program.definition document position = .ok none) ∧
        (target.isLibrary = false → target.node ∈ (Node.unit program.unit).walk ∧
          program.definition document position = some <$> target.nameSpan.toRange ∧
          (∀ range, target.nameSpan.toRange = .ok range → document.textIn range = reference.name.toList) ∧
          ((document.text.length : Int) ≤ Coordinate.limit → ∃ range, target.nameSpan.toRange = .ok range)) ∧
        (file ≠ Library.file → (target.isLibrary = true ↔ ∃ func ∈ Library.functions, target = .function func)) := by
  obtain ⟨_, source⟩ := CompUnit.exists_source parsed
  obtain ⟨token, isToken, isName⟩ :=
    source.written _ (Node.mem_walk_of_mem_sitesUnder member) reference (Node.use?_mem_names isUse)
  obtain ⟨_, _, stands⟩ := source.stands token isToken
  have oneLine : reference.span.startLine = reference.span.endLine := by rw [isName, stands.span_eq]
  have ordered : reference.span.startColumn ≤ reference.span.endColumn := by
    have nonempty := length_pos_iff.mpr stands.isToken.ne_nil
    rw [isName, stands.span_eq]
    dsimp only
    omega
  refine ⟨oneLine, fun position sameLine low high => ?_, fun position sameLine atStart => ?_,
    fun position reached => ?_⟩
  · refine (siteAt_of_use parsed member isUse sameLine low.le high).mpr fun atStart => ?_
    exact absurd atStart low.ne'
  · rw [siteAt_of_use parsed member isUse sameLine atStart.ge (by omega)]
    exact ⟨fun clear => clear atStart, fun clear _ => clear⟩
  · have answer := definition_of_use reached isUse
    refine ⟨fun unresolved => by rw [answer, unresolved], fun target resolved => ?_⟩
    rw [resolved] at answer
    obtain ⟨sameName, declared⟩ := target_of_use parsed linked member isUse resolved
    have ofLibrary : (∃ func ∈ Library.functions, target = .function func) → target.isLibrary = true := by
      rintro ⟨_, isFunc, rfl⟩
      exact Library.isLibrary_of_mem isFunc
    refine ⟨fun isLibrary => by simp [answer, isLibrary], fun isOwn => ?_, fun own => ⟨fun isLibrary => ?_, ofLibrary⟩⟩
    · have inWalk := declared.resolve_right fun library => by simp [ofLibrary library] at isOwn
      obtain ⟨word, isWord, named⟩ := source.written _ inWalk _ target.name_mem_names
      obtain ⟨name, place⟩ := Reference.mk.inj named
      obtain ⟨_, _, wordStands⟩ := source.stands word isWord
      refine ⟨inWalk, by simp [answer, isOwn], fun range ranged => ?_, place ▸ wordStands.exists_toRange⟩
      rw [← sameName, name]
      exact wordStands.textIn_toRange (place ▸ ranged) document.uri
    · exact declared.resolve_left fun inWalk => by simp [source.not_isLibrary own inWalk] at isLibrary

end

/-- In `;a;` the empty statement in front of the variable ends where the variable starts, so a cursor there is not on
the variable, and one column further on it is. -/
theorem Program.lookup_finds_name_semicolon :
    ∃ (program : Program) (document : Document), document.text = "int f(int a)\x7b;a;return a;\x7d".toList ∧
      CompUnit.ofText "t.sy" document.text = .ok program.unit ∧ program.unit.link = .ok program.linkage ∧
      ∃ site ∈ (Node.unit program.unit).sites, ∃ reference, site.node.use? = some reference ∧
        reference.span = ⟨"t.sy", 1, 15, 1, 15⟩ ∧
        program.siteAt document ⟨0, 15⟩ = some site ∧ program.siteAt document ⟨0, 14⟩ ≠ some site ∧
        program.definition document ⟨0, 15⟩ = .ok (some ⟨⟨0, 10⟩, ⟨0, 11⟩⟩) := by
  have evaluated : ((CompUnit.ofText "t.sy" "int f(int a)\x7b;a;return a;\x7d".toList).toOption.bind fun unit =>
      unit.link.toOption.map fun linkage =>
        ((Node.unit unit).walk.any fun part => part.span == ⟨"t.sy", 1, 14, 1, 14⟩,
          (Node.unit unit).sites.filterMap fun site => site.node.use?.map fun reference =>
            (reference.span, (linkage.target? reference).map fun target => (target.nameSpan, target.isLibrary),
              site.ancestors.all fun above => above.span != ⟨"t.sy", 1, 14, 1, 14⟩))) =
      some (true, [(⟨"t.sy", 1, 15, 1, 15⟩, some (⟨"t.sy", 1, 11, 1, 11⟩, false), true),
        (⟨"t.sy", 1, 24, 1, 24⟩, some (⟨"t.sy", 1, 11, 1, 11⟩, false), true)]) := by
    rw [String.toList_ofList]
    set_option synthInstance.maxSize 500 in decide +kernel
  obtain ⟨unit, parsed, evaluated⟩ := Option.bind_eq_some_iff.mp evaluated
  obtain ⟨linkage, linked, evaluated⟩ := Except.exists_of_toOption evaluated
  obtain ⟨ends, uses⟩ := Prod.mk.inj evaluated
  replace parsed := Except.eq_ok_of_toOption parsed
  obtain ⟨part, isPart, isEnd⟩ := any_eq_true.mp ends
  have isUse := uses ▸ mem_cons_self
  obtain ⟨site, member, isUse⟩ := mem_filterMap.mp isUse
  obtain ⟨reference, isUse, facts⟩ := Option.map_eq_some_iff.mp isUse
  obtain ⟨span, meaning, apart⟩ : reference.span = ⟨"t.sy", 1, 15, 1, 15⟩ ∧ _ ∧ _ := by
    simpa only [Prod.mk.injEq] using facts
  obtain ⟨target, resolved, place⟩ := Option.map_eq_some_iff.mp meaning
  obtain ⟨nameSpan, isOwn⟩ := Prod.mk.inj place
  have other : part ∉ site.ancestors := fun isAbove => by
    simpa [beq_iff_eq.mp isEnd] using all_eq_true.mp apart part isAbove
  obtain ⟨-, inside, atStart, defined⟩ := @lookup_finds_name "t.sy" ⟨"t.sy", _⟩ ⟨unit, linkage⟩ site reference
    parsed linked member isUse
  have reached := inside ⟨0, 15⟩ (by simp [span]) (by simp [span]) (by simp [span])
  refine ⟨⟨unit, linkage⟩, ⟨"t.sy", _⟩, rfl, parsed, linked, site, member, reference, isUse, span, reached, ?_, ?_⟩
  · intro found
    refine (atStart ⟨0, 14⟩ (by simp [span]) (by simp [span])).mp found part isPart other ?_
    simp [span, beq_iff_eq.mp isEnd]
  · rw [(((defined _ reached).2 target resolved).2.1 isOwn).2.1, nameSpan]
    rfl

end SysYTools
