import SysYTools.Proofs.Tree.Layout

/-!
The nesting of spans. Every part of a program that was read from a text lies within the part above it, the
parts right below a node follow each other, and the words of a node lie within it. Where a node has a name,
the text holds that name at the place of its word.
-/

namespace SysYTools

open List Grammar Lexis

variable {tokens : List Token}
variable {word : Span} {before value : Text}

/-! ## Names and their tokens -/

/-- The names that a node has of its own, with the places of their words. -/
def Node.names : Node → List Reference
  | .varDef var => [⟨var.name, var.nameSpan⟩]
  | .param parameter => [⟨parameter.name, parameter.nameSpan⟩]
  | .func function => [⟨function.name, function.nameSpan⟩]
  | .expr (.lval reference _ _) | .expr (.call reference _ _) => [reference]
  | _ => []

theorem Node.span_mem_words_of_mem_names {node : Node} {name : Reference} (isName : name ∈ node.names) :
    name.span ∈ node.words := by
  unfold Node.names at isName
  split at isName
  all_goals simp_all [Node.words]

/-- The names of a node and of all parts below it are words among the tokens. -/
def Node.Written (tokens : List Token) (node : Node) : Prop :=
  ∀ part ∈ node.walk, ∀ name ∈ part.names, ∃ token ∈ tokens, name = ⟨token.value, token.span⟩

/-- The names are identifiers among the tokens. -/
def Node.Named (tokens : List Token) (node : Node) : Prop :=
  ∀ name ∈ node.names, ∃ token ∈ tokens, token.kind = .identifier ∧ name = ⟨token.value, token.span⟩

namespace Node.Named

variable {tokens : List Token} {node : Node}

theorem plain (names : node.names = []) : node.Named tokens := by simp [Node.Named, names]

theorem single {name : Token} (isName : name.kind = .identifier) (member : name ∈ tokens)
    (names : node.names = [⟨name.value, name.span⟩]) : node.Named tokens := by
  intro found isFound
  rw [names] at isFound
  exact ⟨name, member, isName, mem_singleton.mp isFound⟩

theorem mono (named : node.Named tokens) {more : List Token} (subset : tokens ⊆ more) : node.Named more := by
  intro name isName
  obtain ⟨token, isToken, same⟩ := named name isName
  exact ⟨token, subset isToken, same⟩

end Node.Named

theorem Grammar.ExprAt.named {level : Nat} {expr : Expr}
    (derived : ExprAt level tokens expr) : (Node.expr expr).Named tokens := by
  induction derived using ExprAt.rec (motive_2 := fun _ _ _ _ _ => True)
    (motive_3 := fun _ _ _ => True) with
  | tighter _ _ ih => exact ih
  | binary | unary | intLit | floatLit => exact .plain rfl
  | lval isName | callNone isName | call isName => exact .single isName mem_cons_self rfl
  | paren _ _ _ ih => exact ih.mono (by simp)
  | _ => trivial

theorem Node.Derived.named {node : Node} (derived : node.Derived tokens) : node.Named tokens := by
  cases derived with
  | varDef defines =>
    cases defines with
    | plain isName | initialized isName => exact .single isName mem_cons_self rfl
  | param takes =>
    cases takes with
    | plain _ isName | array _ isName => exact .single isName (mem_cons_of_mem _ mem_cons_self) rfl
  | func defines =>
    cases defines with
    | mk _ isName => exact .single isName (mem_cons_of_mem _ mem_cons_self) rfl
  | expr value => exact value.named
  | _ => exact .plain rfl

theorem Node.mem_words_cases {node : Node} (isWord : word ∈ node.words) :
    (∃ name ∈ node.names, name.span = word) ∨ ∃ function, node = .func function ∧ function.typeSpan = word := by
  unfold Node.words at isWord
  split at isWord
  all_goals simp_all [Node.names, eq_comm, or_comm]

theorem Node.Derived.anchors_word {node : Node} (derived : node.Derived tokens)
    (isWord : word ∈ node.words) : Anchors tokens word := by
  rcases mem_words_cases isWord with ⟨name, isName, rfl⟩ | ⟨_, rfl, rfl⟩
  · obtain ⟨_, isToken, -, rfl⟩ := derived.named name isName
    exact .token isToken
  · cases derived with
    | func defines =>
      cases defines with
      | mk => exact .token mem_cons_self

theorem Node.Derived.anchors {node : Node} (derived : node.Derived tokens) :
    ∀ span ∈ node.span :: node.words, Anchors tokens span :=
  forall_mem_cons.mpr ⟨derived.anchors_span, fun _ => derived.anchors_word⟩

/-! ## Programs and their texts -/

namespace CompUnit.Source

variable {file : String} {text : Text} {unit : CompUnit} {words : List Token}

theorem named (source : unit.Source file text words) : ∀ part ∈ (Node.unit unit).walk, part.Named words := by
  intro part isPart
  rcases source.derived.of_mem_walk isPart with rfl | ⟨_, inside, derived⟩
  · exact .plain rfl
  · exact derived.named.mono inside.subset

theorem written (source : unit.Source file text words) : (Node.unit unit).Written words := by
  intro part isPart name isName
  obtain ⟨token, isToken, -, same⟩ := source.named part isPart name isName
  exact ⟨token, isToken, same⟩

private theorem last_le_end {word : Token} (stands : Stands file text word before value) :
    word.span.last ≤ (tokenAfter file text .endOfInput []).span.last := by
  have order := Place.after_le stands.within
  rw [Place.start_after_append stands.isToken.no_feed, Prod.Lex.toLex_le_toLex] at order
  simp only [stands.span_eq, Span.last, tokenAfter, append_nil, Place.spanTo, Prod.Lex.toLex_le_toLex]
  push_cast at order ⊢
  omega

private theorem first_le_start {word : Token} (stands : Stands file text word before value) :
    (toLex (1, 1) : ℤ ×ₗ ℤ) ≤ word.span.first := by
  rw [stands.span_eq, Span.first, Prod.Lex.toLex_le_toLex]
  dsimp only
  omega

theorem laid (source : unit.Source file text words) : (Node.unit unit).Laid := by
  obtain ⟨laid, follow⟩ := source.derived.aligned source.sorted
  refine .mk ⟨?_, ?_, follow, by simp [Node.words], by simp [Node.literal?]⟩ laid
  · simp only [Span.Ordered, Node.span, source.span, Span.first, Span.last, tokenAfter, Place.spanTo,
      Prod.Lex.toLex_le_toLex, append_nil, Place.start_after]
    push_cast
    omega
  · intro child member
    obtain ⟨⟨first, isFirst, starts⟩, ⟨last, isLast, ends⟩⟩ :=
      source.derived.row.anchors (.node child) (mem_map_of_mem member)
    change child.span.first = _ at starts
    change child.span.last = _ at ends
    obtain ⟨_, _, firstStands⟩ := source.stands first isFirst
    obtain ⟨_, _, lastStands⟩ := source.stands last isLast
    have whole : (Node.unit unit).span = unit.span := rfl
    rw [Span.Inside, starts, ends, whole, source.span]
    exact ⟨first_le_start firstStands, last_le_end lastStands⟩

end CompUnit.Source

theorem Node.Laid.of_mem_walk {node part : Node} (laid : node.Laid) (member : part ∈ node.walk) : part.Laid := by
  induction laid with
  | @mk node fits below ih =>
    rw [walk_eq] at member
    rcases mem_cons.mp member with rfl | member
    · exact .mk fits below
    · obtain ⟨child, isChild, member⟩ := mem_flatMap.mp member
      exact ih child isChild member

namespace Node

theorem Laid.inside_of_mem_walk {node part : Node} (laid : node.Laid) (member : part ∈ node.walk) :
    part.span.Inside node.span := by
  rw [← map_node_sitesUnder []] at member
  obtain ⟨site, isSite, rfl⟩ := mem_map.mp member
  exact ((laid.sites_nodup []).2 site isSite).2

private theorem Laid.word_inside {node part : Node} (laid : node.Laid) (member : part ∈ node.walk)
    (isWord : word ∈ part.words) : word.Ordered ∧ word.Inside node.span := by
  obtain ⟨ordered, inside, -⟩ := (laid.of_mem_walk member).fits.word word isWord
  exact ⟨ordered, inside.trans (laid.inside_of_mem_walk member)⟩

theorem Laid.eq_of_mem_words {node left right : Node} (laid : node.Laid) (isLeft : left ∈ node.walk)
    (isRight : right ∈ node.walk) (inLeft : word ∈ left.words) (inRight : word ∈ right.words) : left = right := by
  induction laid with
  | @mk node fits below ih =>
    have own : ∀ child ∈ node.children, ∀ part ∈ child.walk, word ∈ part.words → word ∉ node.words := by
      intro child isChild part isPart inPart isOwn
      obtain ⟨ordered, inside⟩ := (below child isChild).word_inside isPart inPart
      exact ordered.not_before (((fits.word word isOwn).2.2 child isChild).of_inside_right inside)
    rw [walk_eq] at isLeft isRight
    rcases mem_cons.mp isLeft with rfl | isLeft
    · rcases mem_cons.mp isRight with rfl | isRight
      · rfl
      · obtain ⟨child, isChild, isRight⟩ := mem_flatMap.mp isRight
        exact absurd inLeft (own child isChild right isRight inRight)
    · obtain ⟨child, isChild, leftInChild⟩ := mem_flatMap.mp isLeft
      rcases mem_cons.mp isRight with rfl | isRight
      · exact absurd inRight (own child isChild left leftInChild inLeft)
      · obtain ⟨other, isOther, rightInChild⟩ := mem_flatMap.mp isRight
        obtain ⟨ordered, inside⟩ := (below child isChild).word_inside leftInChild inLeft
        obtain ⟨-, inside'⟩ := (below other isOther).word_inside rightInChild inRight
        have apart : ∀ early late : Node, early.span.Before late.span → word.Inside early.span →
            ¬ word.Inside late.span := fun early late order inEarly inLate =>
          ordered.not_before ((order.of_inside_left inEarly).of_inside_right inLate)
        obtain ⟨_, _, split⟩ := append_of_mem isChild
        have sorted := fits.sorted
        rw [split, pairwise_append, pairwise_cons] at sorted
        rw [split] at isOther
        rcases mem_append.mp isOther with earlier | later
        · exact absurd inside (apart _ _ (sorted.2.2 other earlier child mem_cons_self) inside')
        rcases mem_cons.mp later with rfl | later
        · exact ih other isChild leftInChild rightInChild
        · exact absurd inside' (apart _ _ (sorted.2.1.1 other later) inside)

end Node

/-- The spans of a program nest. Each part starts no later than it ends and reaches over the parts right
below it, which follow each other, and over its words. At the place of a name the text holds that name; a
text that is longer than a position can count may have names without a range. -/
theorem CompUnit.spans_nest {file : String} {text : Text} {unit : CompUnit}
    (parsed : CompUnit.ofText file text = .ok unit) :
    ∀ node ∈ (Node.unit unit).walk, node.span.Ordered ∧ (∀ child ∈ node.children, child.span.Inside node.span) ∧
      node.children.Pairwise (fun left right => left.span.Before right.span) ∧
      (∀ word ∈ node.words, word.Inside node.span) ∧ ∀ name ∈ node.names, name.span ∈ node.words ∧
        (∀ range, name.span.toRange = .ok range → ∀ uri, Document.textIn { uri, text } range = name.name.toList) ∧
        ((text.length : Int) ≤ Coordinate.limit → ∃ range, name.span.toRange = .ok range) := by
  obtain ⟨_, source⟩ := CompUnit.exists_source parsed
  intro node member
  have fits := (source.laid.of_mem_walk member).fits
  refine ⟨fits.ordered, fits.inside, fits.sorted, fun word isWord => (fits.word word isWord).2.1, ?_⟩
  intro name isName
  obtain ⟨token, isToken, rfl⟩ := source.written node member name isName
  obtain ⟨_, _, stands⟩ := source.stands token isToken
  exact ⟨Node.span_mem_words_of_mem_names isName, fun range found => stands.textIn_toRange found,
    stands.exists_toRange⟩

/-- Parentheses around an operand and an empty last line do not disturb the nesting. -/
theorem CompUnit.spans_nest_parentheses :
    ∃ unit, CompUnit.ofText "t.sy" "int f(int a[]){return -(a[1])+f((a));}\n".toList = .ok unit ∧
      ∀ node ∈ (Node.unit unit).walk, (∀ child ∈ node.children, child.span.Inside node.span) ∧
        ∀ name ∈ node.names, ∃ range, name.span.toRange = .ok range ∧
          Document.textIn ⟨"t.sy", "int f(int a[]){return -(a[1])+f((a));}\n".toList⟩ range = name.name.toList := by
  have accepted : (CompUnit.ofText "t.sy"
      "int f(int a[]){return -(a[1])+f((a));}\n".toList).toOption.isSome = true := by
    rw [String.toList_ofList]
    decide +kernel
  obtain ⟨unit, parsed⟩ := Except.exists_of_isSome accepted
  refine ⟨unit, parsed, fun node member => ?_⟩
  obtain ⟨-, inside, -, -, names⟩ := CompUnit.spans_nest parsed node member
  refine ⟨inside, fun name isName => ?_⟩
  obtain ⟨-, holds, counted⟩ := names name isName
  obtain ⟨range, found⟩ := counted (by rw [String.toList_ofList]; decide)
  exact ⟨range, found, holds range found "t.sy"⟩

end SysYTools
