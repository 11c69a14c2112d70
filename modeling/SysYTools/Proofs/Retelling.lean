import SysYTools.Fix.Request
import SysYTools.Proofs.Message
import SysYTools.Proofs.Text.Search

/-!
What a message tells again. A problem hands its facts on in two ways, as data and in the words of its message.
The names, numbers, types and brackets that a repair asks for are found in the message just as the data give
them, whatever stands below the message.
-/

namespace SysYTools

open List Grammar Lexis Text

variable {file : String} {text : Text} {unit : CompUnit} {words : List Token}
variable {bracket : Char} {front rest : Text} {name : String} {node : Node} {problem : Problem} {report : Report}

/-! ## Parts of messages -/

namespace MessagePart

theorem search?_quotedName {name : Text} (form : IsWord name) (unquoted : hasPart front ['\''] = false) :
    search? (front ++ (['\''] ++ (name ++ (['\''] ++ rest)))) quotedName = some name := by
  have named : readName (name ++ (['\''] ++ rest)) = some (name, ['\''] ++ rest) :=
    readName_append form (by simp; decide)
  unfold quotedName
  apply search?_keyed (by simpa using unquoted)
  rw [named]
  dsimp only [Option.bind_eq_bind, Option.bind_some]
  rw [readExactly_append]
  rfl

theorem search?_arrayName {name : Text} (form : IsWord name)
    (fresh : hasPart (front ++ "array".toList) "array ".toList = false) :
    search? (front ++ ("array ".toList ++ (name ++ (" has more".toList ++ rest)))) arrayName = some name := by
  have reader : arrayName = fun text => readExactly "array ".toList text >>= fun text =>
      readName ((readExactly ['\''] text).getD text) >>= fun found =>
        readExactly " has more".toList ((readExactly ['\''] found.2).getD found.2) >>= fun rest =>
          some (found.1, rest) := rfl
  have named : readName (name ++ (" has more".toList ++ rest)) = some (name, " has more".toList ++ rest) :=
    readName_append form (by simp; decide)
  have bare : readExactly ['\''] (name ++ (" has more".toList ++ rest)) = none := by
    apply readExactly_eq_none
    intro starts
    cases form with
    | mk first =>
      obtain ⟨rfl, -⟩ := cons_prefix_cons.mp starts
      cases first
  have unquoted : readExactly ['\''] (" has more".toList ++ rest) = none := by
    apply readExactly_eq_none
    rw [String.toList_ofList]
    simp
  rw [reader]
  apply search?_keyed fresh
  rw [bare, Option.getD_none, named]
  dsimp only [Option.bind_eq_bind, Option.bind_some]
  rw [unquoted, Option.getD_none, readExactly_append]
  rfl

theorem search?_expectedCount {digits : Text} (nonempty : digits ≠ []) (all : AllDigits digits)
    (fresh : hasPart (front ++ "Expected".toList) "Expected ".toList = false) :
    search? (front ++ ("Expected ".toList ++ (digits ++ (" argument".toList ++ rest)))) expectedCount =
      some digits := by
  have counted : readDigits (digits ++ (" argument".toList ++ rest)) = some (digits, " argument".toList ++ rest) :=
    readDigits_append nonempty all (by simp; decide)
  unfold expectedCount
  apply search?_keyed fresh
  rw [counted]
  dsimp only [Option.bind_eq_bind, Option.bind_some]
  rw [readExactly_append]
  rfl

theorem search?_actualCount {front digits rest : Text} (nonempty : digits ≠ []) (all : AllDigits digits)
    (fresh : hasPart (front ++ "passes".toList) "passes ".toList = false) :
    search? (front ++ ("passes ".toList ++ (digits ++ (".".toList ++ rest)))) actualCount = some digits := by
  have counted : readDigits (digits ++ (".".toList ++ rest)) = some (digits, ".".toList ++ rest) :=
    readDigits_append nonempty all (by simp; decide)
  unfold actualCount
  apply search?_keyed fresh
  rw [counted]
  rfl

theorem search?_jumpKeyword (jump : Jump) (rest : Text) :
    search? ("'".toList ++ (jump.keyword.toList ++ ("'".toList ++ rest))) jumpKeyword = some jump.keyword.toList := by
  cases jump <;> rfl

theorem search?_returnType {word : Text} (nonempty : word ≠ []) (all : ∀ c ∈ word, Lexeme.isNameChar c = true)
    (fresh : hasPart (front ++ "return type".toList) "return type ".toList = false) :
    search? (front ++ ("return type ".toList ++ (word ++ ' ' :: rest))) returnType = some word := by
  have read : readWord (word ++ ' ' :: rest) = some (word, ' ' :: rest) :=
    readWord_append nonempty all (by simp; decide)
  unfold returnType
  apply search?_keyed fresh
  rw [read]
  rfl

theorem search?_missingBracket (isBracket : "()[]\x7b\x7d".toList.contains bracket = true)
    (fresh : hasPart (front ++ "missing ".toList) "missing '".toList = false) :
    search? (front ++ ("missing '".toList ++ (bracket :: '\'' :: rest))) missingBracket = some [bracket] := by
  unfold missingBracket
  apply search?_keyed fresh
  change (if "()[]\x7b\x7d".toList.contains bracket = true then some ([bracket], rest) else none).map Prod.fst = _
  rw [if_pos isBracket]
  rfl

theorem search?_initializerShape {front word rest : Text} (nonempty : word ≠ [])
    (all : ∀ c ∈ word, Lexeme.isNameChar c = true)
    (fresh : hasPart (front ++ "expects ".toList) "expects a".toList = false) :
    search? (front ++ ("expects a".toList ++ (" ".toList ++ (word ++ (" initializer".toList ++ rest)))))
      initializerShape = some word := by
  have read : readWord (word ++ (" initializer".toList ++ rest)) = some (word, " initializer".toList ++ rest) :=
    readWord_append nonempty all (by simp; decide)
  have bare : readExactly ['n'] (" ".toList ++ (word ++ (" initializer".toList ++ rest))) = none := by
    apply readExactly_eq_none
    rw [String.toList_ofList]
    simp
  have blank : readExactly [' '] (" ".toList ++ (word ++ (" initializer".toList ++ rest))) =
      some (word ++ (" initializer".toList ++ rest)) := readExactly_append [' '] _
  unfold initializerShape
  apply search?_keyed fresh
  dsimp only
  rw [bare, Option.getD_none, blank]
  dsimp only [Option.bind_eq_bind, Option.bind_some]
  rw [read]
  dsimp only [Option.bind_some]
  rw [readExactly_append]
  rfl

end MessagePart

/-! ## Messages -/

namespace Problem

open MessagePart

/-- The parts that a repair looks for in the message, and what it is to find. -/
def told : Problem → List (Reader Text × Text)
  | .missingBracket bracket _ => [(MessagePart.missingBracket, [bracket])]
  | .duplicateDeclaration name | .undefinedVariable name | .unusedVariable name | .undefinedFunction name
  | .duplicateFunction name => [(quotedName, name.toList)]
  | .arrayOverflow name _ _ => [(arrayName, name.toList)]
  | .initializerShape _ wantsArray => [(MessagePart.initializerShape, (shapeName wantsArray).toList)]
  | .argumentCount _ wanted given =>
    [(expectedCount, (toString wanted).toList), (actualCount, (toString given).toList)]
  | .missingReturn _ type | .emptyReturn _ type => [(returnType, type.toList)]
  | .strayJump jump => [(jumpKeyword, jump.keyword.toList)]
  | _ => []

/-- A problem whose words are of the kind that its message has room for, and whose numbers have a limit. -/
def Readable (limit : Nat) : Problem → Prop
  | .missingBracket bracket _ => "()[]\x7b\x7d".toList.contains bracket = true
  | .duplicateDeclaration name | .undefinedVariable name | .unusedVariable name | .undefinedFunction name
  | .duplicateFunction name | .arrayOverflow name _ _ | .initializerShape name _ => IsWord name.toList
  | .argumentCount _ wanted given => wanted ≤ limit ∧ given ≤ limit
  | .missingReturn _ type | .emptyReturn _ type => ∃ base : BaseType, type = base.name
  | _ => True

-- The messages below are written with the key of the part apart from the letters around it.

private theorem told_quoted (front closing : String) (form : IsWord name.toList)
    (unquoted : hasPart front.toList ['\''] = false) (rest : Text) :
    search? ((front ++ "'" ++ name ++ ("'" ++ closing)).toList ++ rest) quotedName = some name.toList := by
  simp only [String.toList_append, append_assoc]
  exact search?_quotedName form unquoted

private theorem told_returnType (closing : String) (type : BaseType) (rest : Text) :
    search? (("function with " ++ "return type " ++ type.name ++ (" " ++ closing)).toList ++ rest) returnType =
      some type.name.toList := by
  have chars : type.name.toList.all Lexeme.isNameChar = true := by cases type <;> rfl
  have nonempty : type.name.toList ≠ [] := by cases type <;> decide
  simp only [String.toList_append, append_assoc]
  exact search?_returnType nonempty (all_eq_true.mp chars) (by decide)

private theorem told_expectedCount (wanted given : Nat) (rest : Text) :
    search? (("parameter count mismatch. " ++ "Expected " ++ toString wanted ++
      (" argument" ++ "s, but the call passes ") ++ toString given ++ ".").toList ++ rest) expectedCount =
      some (toString wanted).toList := by
  simp only [String.toList_append, append_assoc]
  exact search?_expectedCount (Literal.toString_ne_nil wanted) (Literal.allDigits_toString wanted) (by decide)

private theorem told_actualCount (wanted given : Nat) (rest : Text) :
    search? (("parameter count mismatch. Expected " ++ toString wanted ++
      (" arguments, but the call " ++ "passes ") ++ toString given ++ ".").toList ++ rest) actualCount =
      some (toString given).toList := by
  have fresh : hasPart ("parameter count mismatch. Expected ".toList ++ ((toString wanted).toList ++
      (" arguments, but the call ".toList ++ "passes".toList))) "passes ".toList = false := by
    obtain ⟨_, _, digits⟩ := exists_cons_of_ne_nil (Literal.toString_ne_nil wanted)
    have undigited : "passes ".toList.any (·.isDigit) = false := rfl
    have all := Literal.allDigits_toString wanted
    rw [digits] at all ⊢
    rw [hasPart_append_run (by decide)]
    · decide
    · intro d member within
      exact any_eq_false.mp undigited d within (all d member)
  have found := @search?_actualCount ("parameter count mismatch. Expected ".toList ++ ((toString wanted).toList ++
    " arguments, but the call ".toList)) _ rest (Literal.toString_ne_nil given) (Literal.allDigits_toString given)
    (by simpa only [append_assoc] using fresh)
  simpa only [String.toList_append, append_assoc] using found

private theorem told_jumpKeyword (jump : Jump) (rest : Text) :
    search? (("'" ++ jump.keyword ++ ("'" ++ " statement can only be used inside a loop.")).toList ++ rest)
      jumpKeyword = some jump.keyword.toList := by
  simp only [String.toList_append, append_assoc]
  exact search?_jumpKeyword jump _

private theorem told_missingBracket (after : String) (isBracket : "()[]\x7b\x7d".toList.contains bracket = true)
    (rest : Text) :
    search? (("unmatched bracket: " ++ "missing '" ++ String.singleton bracket ++ ("'" ++ " after '") ++ after ++
      "'.").toList ++ rest) MessagePart.missingBracket = some [bracket] := by
  simp only [String.toList_append, append_assoc, String.toList_singleton]
  exact search?_missingBracket isBracket (by decide)

private theorem told_arrayName (form : IsWord name.toList) (rest : Text) :
    search? (("" ++ "array " ++ name ++ (" has more" ++ " initializer elements than the array size.")).toList ++
      rest) arrayName = some name.toList := by
  simp only [String.toList_append, append_assoc]
  exact search?_arrayName form (by decide)

private theorem told_initializerShape (form : IsWord name.toList) (wantsArray : Bool) (rest : Text) :
    search? (("type mismatch: variable '" ++ name ++ ("' " ++ "expects a" ++ " ") ++ shapeName wantsArray ++
      (" initializer" ++ ".")).toList ++ rest) MessagePart.initializerShape = some (shapeName wantsArray).toList := by
  have solid : ' ' ∉ name.toList := by
    intro member
    cases form.chars ' ' member
  have fills : Template.Fills (.ofString "type mismatch: variable '" ++ .gap ++ .ofString ("' " ++ "expects "))
      ("type mismatch: variable '" ++ name ++ ("' " ++ "expects ")).toList :=
    .join (.join (.ofString _) (.gap solid)) (.ofString _)
  have fresh := fills.hasPart_eq_false (show Template.mayHold _ "expects a".toList = false by decide)
  have chars : (shapeName wantsArray).toList.all Lexeme.isNameChar = true := by cases wantsArray <;> rfl
  have nonempty : (shapeName wantsArray).toList ≠ [] := by cases wantsArray <;> decide
  simp only [String.toList_append, append_assoc] at fresh ⊢
  have found := @search?_initializerShape ("type mismatch: variable '".toList ++ (name.toList ++ "' ".toList)) _
    (".".toList ++ rest) nonempty (all_eq_true.mp chars) (by simpa only [append_assoc] using fresh)
  simpa only [append_assoc] using found

theorem search?_told {limit : Nat} (readable : problem.Readable limit) :
    ∀ entry ∈ problem.told, ∀ rest, search? (problem.message.toList ++ rest) entry.1 = some entry.2 := by
  cases problem with
  | duplicateDeclaration =>
    exact forall_mem_singleton.mpr (told_quoted "cannot redeclare block-scoped variable " "." readable (by decide))
  | undefinedVariable =>
    exact forall_mem_singleton.mpr (told_quoted "use of undefined variable " "." readable (by decide))
  | unusedVariable => exact forall_mem_singleton.mpr (told_quoted "unused variable " "." readable (by decide))
  | undefinedFunction =>
    exact forall_mem_singleton.mpr (told_quoted "call to undefined function " "." readable (by decide))
  | duplicateFunction name =>
    exact forall_mem_singleton.mpr (told_quoted "function name " " is already defined." readable (by decide))
  | missingReturn =>
    obtain ⟨type, rfl⟩ := readable
    exact forall_mem_singleton.mpr (told_returnType "is missing a return statement." type)
  | emptyReturn =>
    obtain ⟨type, rfl⟩ := readable
    exact forall_mem_singleton.mpr (told_returnType "must not return empty." type)
  | argumentCount _ wanted given =>
    exact forall_mem_cons.mpr ⟨told_expectedCount wanted given,
      forall_mem_singleton.mpr (told_actualCount wanted given)⟩
  | strayJump jump => exact forall_mem_singleton.mpr (told_jumpKeyword jump)
  | missingBracket _ after => exact forall_mem_singleton.mpr (told_missingBracket after readable)
  | arrayOverflow => exact forall_mem_singleton.mpr (told_arrayName readable)
  | initializerShape _ wantsArray => exact forall_mem_singleton.mpr (told_initializerShape readable wantsArray)
  | _ => simp [told]

end Problem

/-! ## Problems of an analysis -/

namespace CompUnit.Source

variable {file : String} {text : Text} {unit : CompUnit} {words : List Token}

theorem anchors_child (source : unit.Source file text words) {child : Node} (member : node ∈ (Node.unit unit).walk)
    (isChild : child ∈ node.children) : Anchors words child.span := by
  obtain ⟨_, inside, derived⟩ := source.derived.child_derived member isChild
  exact derived.anchors_span.mono inside.subset

theorem length_children_le (source : unit.Source file text words) (member : node ∈ (Node.unit unit).walk) :
    node.children.length ≤ text.length := by
  have laid := source.laid.of_mem_walk member
  have distinct : (node.children.map (·.span.first)).Nodup := by
    rw [List.Nodup, pairwise_map]
    refine laid.fits.sorted.imp_of_mem fun {left right} isLeft _ before => ?_
    exact ((laid.child isLeft).fits.ordered.trans_lt before).ne
  have placed : node.children.map (·.span.first) ⊆ (List.range text.length).map fun index =>
      toLex (((text.take index).count '\n' + 1 : ℤ), ((Text.lastLine (text.take index)).length + 1 : ℤ)) := by
    intro place isPlace
    obtain ⟨_, isChild, rfl⟩ := mem_map.mp isPlace
    obtain ⟨token, isToken, first⟩ := (source.anchors_child member isChild).first
    obtain ⟨before, _, stands⟩ := source.stands token isToken
    have short : before.length < text.length := by
      have positive := length_pos_iff.mpr stands.isToken.ne_nil
      have length := stands.within.length_le
      rw [length_append] at length
      omega
    have taken : text.take before.length = before := by
      obtain ⟨_, rfl⟩ := stands.within
      simp
    apply mem_map.mpr
    refine ⟨before.length, mem_range.mpr short, ?_⟩
    rw [taken, first, stands.span_eq]
    rfl
  have length := (distinct.subperm placed).length_le
  rwa [length_map, length_map, length_range] at length

end CompUnit.Source

theorem Lexical.length_params_le
    (source : unit.Source file text words) {reference : Reference} {func : FuncDef}
    (found : functionTarget unit reference = some (.function func)) : func.params.length ≤ max text.length 2 := by
  rw [functionTarget, Option.map_eq_some_iff] at found
  obtain ⟨_, found, same⟩ := found
  cases same
  rcases mem_append.mp (mem_of_find?_eq_some found) with isOwn | isLibrary
  · have isPart : Node.func func ∈ (Node.unit unit).walk := by
      obtain ⟨item, isItem, isFunc⟩ := mem_filterMap.mp isOwn
      cases item with
      | decl => cases isFunc
      | func =>
        cases isFunc
        exact Node.mem_walk_of_child (mem_map_of_mem isItem) (Node.self_mem_walk _)
    have length := source.length_children_le isPart
    simp only [Node.children, length_append, length_map, length_singleton] at length
    omega
  · have few : ∀ func ∈ Library.functions, func.params.length ≤ 2 := by decide
    have length := few func isLibrary
    omega

theorem Breach.readable
    (source : unit.Source file text words) {site : Node.Site} {code : Code}
    (member : site.node ∈ (Node.unit unit).walk) (named : ∀ name ∈ site.node.names, IsWord name.name.toList)
    (breach : Breach unit site code report) : report.problem.Readable (max text.length 2) := by
  cases breach with
  | @duplicateFunction func => exact named ⟨func.name, func.nameSpan⟩ mem_cons_self
  | @missingReturn _ type | @emptyReturn _ type => exact ⟨type, rfl⟩
  | @duplicateDeclaration _ var | @arrayOverflow var | @scalarList var | @arrayValue var =>
    exact named ⟨var.name, var.nameSpan⟩ mem_cons_self
  | @undefinedVariable reference | @undefinedFunction reference => exact named reference mem_cons_self
  | argumentCount found =>
    have length := source.length_children_le member
    simp only [Node.children, length_map] at length
    exact ⟨Lexical.length_params_le source found, by omega⟩
  | _ => trivial

theorem Program.readable_of_violations {linkage : Linkage}
    {settings : CheckSettings} (parsed : CompUnit.ofText file text = .ok unit) (linked : unit.link = .ok linkage)
    (member : report ∈ Program.violations { unit, linkage } (settings.select Rulebook.standard)) :
    report.problem.Readable (max text.length 2) := by
  obtain ⟨_, source⟩ := CompUnit.exists_source parsed
  have named : ∀ part ∈ (Node.unit unit).walk, ∀ name ∈ part.names, IsWord name.name.toList := by
    intro part isPart name isName
    obtain ⟨token, isToken, isIdentifier, rfl⟩ := source.named part isPart name isName
    obtain ⟨_, _, stands⟩ := source.stands token isToken
    rw [stands.value_eq]
    exact stands.isToken.word_of_kind (.inl isIdentifier)
  rcases Program.cases_of_violations (CompUnit.aligned_of_ofText parsed) linked member with
    ⟨site, isSite, broken⟩ | ⟨var, isVar, -, rfl⟩
  · have isPart : site.node ∈ (Node.unit unit).walk := mem_map_of_mem isSite
    exact broken.readable source isPart (named site.node isPart)
  · exact named _ isVar ⟨var.name, var.nameSpan⟩ mem_cons_self

theorem Problem.IsLexical.readable (lexical : problem.IsLexical) (limit : Nat) : problem.Readable limit := by
  cases lexical <;> trivial

theorem Parser.Blames.readable {token : Token} (blames : Blames token problem) (limit : Nat) :
    problem.Readable limit := by
  cases blames with
  | bracket closes =>
    simp only [isClosingBracket, Bool.or_eq_true, beq_iff_eq] at closes
    rcases closes with (rfl | rfl) | rfl <;> rfl
  | branchParen | loopParen => rfl
  | _ => trivial

theorem CompUnit.readable_of_ofText_error {reports : List Report}
    (failed : CompUnit.ofText file text = .error reports) (member : report ∈ reports) (limit : Nat) :
    report.problem.Readable limit := by
  rcases CompUnit.problem_of_ofText_error failed member with lexical | ⟨_, -, blames⟩
  · exact lexical.readable limit
  · exact blames.readable limit

end SysYTools
