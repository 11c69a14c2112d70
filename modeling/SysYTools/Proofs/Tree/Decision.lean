import SysYTools.Proofs.Tree.Acceptance

/-!
The parser decides the grammar. Every derivation can be changed, for the same tokens, into one that gives
each `else` to the nearest `if`; these are the derivations that the parser finds.
-/

namespace SysYTools

open List

variable {tokens : List Token}

namespace Grammar

/-- A statement that could take an `else` does take one that follows it. -/
theorem Statement.attach {stmt : Stmt} (derived : Statement tokens stmt)
    (nearest : stmt.NearestElse) (isOpen : stmt.endsOpen = true) {mark : Token} {other : List Token}
    {elsePart : Stmt} (otherwise : mark.kind = .elseKeyword) (derivedElse : Statement other elsePart)
    (nearestElse : elsePart.NearestElse) :
    ∃ joined, Statement (tokens ++ mark :: other) joined ∧ joined.NearestElse := by
  induction derived using Statement.rec (motive_2 := fun _ _ _ => True) with
  | @branch _ _ _ _ _ _ thenPart found opens condition closes derivedThen ih =>
    cases thenOpen : thenPart.endsOpen with
    | true =>
      obtain ⟨joined, derivedJoined, nearestJoined⟩ := ih nearest thenOpen
      simp only [append_assoc, cons_append]
      exact ⟨_, .branch found opens condition closes derivedJoined, nearestJoined⟩
    | false =>
      exact ⟨_, .branchElse found opens condition closes derivedThen otherwise derivedElse,
        thenOpen, nearest, nearestElse⟩
  | branchElse found opens condition closes derivedThen mark _ _ ih =>
    obtain ⟨joined, derivedJoined, nearestJoined⟩ := ih nearest.2.2 isOpen
    rw [append_assoc]
    exact ⟨_, .branchElse found opens condition closes derivedThen mark derivedJoined,
      nearest.1, nearest.2.1, nearestJoined⟩
  | loop found opens condition closes _ ih =>
    obtain ⟨_, derivedJoined, nearestJoined⟩ := ih nearest isOpen
    simp only [append_assoc, cons_append]
    exact ⟨_, .loop found opens condition closes derivedJoined, nearestJoined⟩
  | assign | expr | empty | block | breakLoop | continueLoop | giveNothing | giveBack => exact Bool.noConfusion isOpen
  | _ => trivial

theorem Items.exists_nearest {items : List BlockItem} (derived : Items tokens items) :
    ∃ others, Items tokens others ∧ BlockItem.AllNearestElse others := by
  induction derived using Items.rec
    (motive_1 := fun tokens _ _ => ∃ other, Statement tokens other ∧ other.NearestElse) with
  | assign target assigns value stops => exact ⟨_, .assign target assigns value stops, trivial⟩
  | expr inside stops => exact ⟨_, .expr inside stops, trivial⟩
  | empty stops => exact ⟨_, .empty stops, trivial⟩
  | block opens _ closes ih =>
    obtain ⟨others, derivedOthers, nearest⟩ := ih
    exact ⟨_, .block opens derivedOthers closes, nearest⟩
  | branch found opens condition closes _ ih =>
    obtain ⟨other, derivedOther, nearest⟩ := ih
    exact ⟨_, .branch found opens condition closes derivedOther, nearest⟩
  | branchElse found opens condition closes _ otherwise _ thenHypothesis elseHypothesis =>
    obtain ⟨thenPart, derivedThen, nearestThen⟩ := thenHypothesis
    obtain ⟨_, derivedElse, nearestElse⟩ := elseHypothesis
    cases thenOpen : thenPart.endsOpen with
    | true =>
      obtain ⟨_, derivedJoined, nearestJoined⟩ :=
        derivedThen.attach nearestThen thenOpen otherwise derivedElse nearestElse
      simp only [append_assoc, cons_append]
      exact ⟨_, .branch found opens condition closes derivedJoined, nearestJoined⟩
    | false =>
      exact ⟨_, .branchElse found opens condition closes derivedThen otherwise derivedElse,
        thenOpen, nearestThen, nearestElse⟩
  | loop found opens condition closes _ ih =>
    obtain ⟨other, derivedOther, nearest⟩ := ih
    exact ⟨_, .loop found opens condition closes derivedOther, nearest⟩
  | breakLoop found stops => exact ⟨_, .breakLoop found stops, trivial⟩
  | continueLoop found stops => exact ⟨_, .continueLoop found stops, trivial⟩
  | giveNothing found stops => exact ⟨_, .giveNothing found stops, trivial⟩
  | giveBack found inside stops => exact ⟨_, .giveBack found inside stops, trivial⟩
  | nil => exact ⟨_, .nil, trivial⟩
  | decl declares _ ih =>
    obtain ⟨others, derivedOthers, nearest⟩ := ih
    exact ⟨_, .decl declares derivedOthers, trivial, nearest⟩
  | stmt _ _ statementHypothesis ih =>
    obtain ⟨_, derivedOther, nearestOther⟩ := statementHypothesis
    obtain ⟨_, derivedOthers, nearest⟩ := ih
    exact ⟨_, .stmt derivedOther derivedOthers, nearestOther, nearest⟩

theorem TopLevel.exists_nearest {items : List Item} (derived : TopLevel tokens items) :
    ∃ others, TopLevel tokens others ∧ ∀ item ∈ others, item.NearestElse := by
  induction derived with
  | nil => exact ⟨_, .nil, by simp⟩
  | decl declares _ ih =>
    obtain ⟨others, derivedOthers, nearest⟩ := ih
    exact ⟨_, .decl declares derivedOthers, forall_mem_cons.mpr ⟨trivial, nearest⟩⟩
  | func defines _ ih =>
    obtain ⟨_, derivedOthers, nearest⟩ := ih
    cases defines with
    | mk typed named opens params closes bodyOpens body bodyCloses =>
      obtain ⟨_, derivedItems, nearestItems⟩ := body.exists_nearest
      exact ⟨_, .func (.mk typed named opens params closes bodyOpens derivedItems bodyCloses)
        derivedOthers, forall_mem_cons.mpr ⟨nearestItems, nearest⟩⟩

end Grammar

namespace CompUnit

open Grammar

section Decision

variable {file : String} {body : List Token} {stop : Token} (stops : stop.kind = .endOfInput)
  (plain : ∀ token ∈ body, token.kind ≠ .endOfInput)
include stops plain

theorem program_of_ofTokens {unit : CompUnit} (parsed : ofTokens file (body ++ [stop]) = .ok unit) :
    TopLevel body unit.items ∧ (∀ item ∈ unit.items, item.NearestElse) ∧
      unit.span = ⟨file, 1, 1, stop.span.endLine, stop.span.endColumn⟩ := by
  obtain ⟨first, rest, split⟩ : ∃ first rest, body ++ [stop] = first :: rest := exists_cons_of_ne_nil (by simp)
  have closed : (⟨none, first, rest, []⟩ : Parser.State).Closed := ⟨body, stop, split.symm, stops, plain⟩
  have held := Parser.items_holds (Parser.fuelFor (first :: rest).length) _ closed
    (by simp only [Parser.fuelFor, length_cons]; omega)
  unfold Parser.Step.Holds at held
  rw [split, ofTokens] at parsed
  cases ran : Parser.items (Parser.fuelFor (first :: rest).length) ⟨none, first, rest, []⟩ with
  | reject | exhausted =>
    rw [ran] at parsed
    cases parsed
  | accept _ after =>
    rw [ran] at held parsed
    obtain ⟨taken, reached, -, sound⟩ := held
    simp only at parsed
    split at parsed
    next quiet =>
      obtain ⟨derived, nearest, ends⟩ := sound (List.isEmpty_iff.mp quiet)
      have here : taken = body ∧ after.current = stop := by
        have whole := reached.tokens
        rw [(reached.closed closed).tokens_of_stop ends] at whole
        obtain ⟨same, last⟩ := append_inj' (split.trans whole) rfl
        exact ⟨same.symm, (List.cons.inj last).1.symm⟩
      cases parsed
      exact ⟨here.1 ▸ derived, nearest, by rw [here.2]⟩
    · cases parsed

theorem ofTokens_of_program {items : List Item} (derived : TopLevel body items)
    (nearest : ∀ item ∈ items, item.NearestElse) :
    ofTokens file (body ++ [stop]) = .ok { items, span := ⟨file, 1, 1, stop.span.endLine, stop.span.endColumn⟩ } := by
  obtain ⟨first, rest, split⟩ : ∃ first rest, body ++ [stop] = first :: rest := exists_cons_of_ne_nil (by simp)
  have shown : (⟨none, first, rest, []⟩ : Parser.State).tokens = body ++ [stop] := split.symm
  have reads := Parser.items_reads_program derived nearest stops plain
    (show 4 * body.length + 6 ≤ Parser.fuelFor (first :: rest).length by
      rw [← split, Parser.fuelFor, length_append]
      omega)
  have ending := Parser.State.current_of_tokens (Parser.State.tokens_past shown (by simp))
  rw [split, ofTokens, reads _ shown (by simp)]
  simp [ending, Parser.State.reports_past]

end Decision

/-- The parser accepts exactly its grammar. It gives a program if and only if the tokens before the end of
the input have a derivation, and the program is the tree of the one derivation in which every `else`
belongs to the nearest `if`. -/
theorem ofTokens_accepts_grammar (file : String) (body : List Token) (stop : Token)
    (stops : stop.kind = .endOfInput) (plain : ∀ token ∈ body, token.kind ≠ .endOfInput) :
    ((∃ unit, ofTokens file (body ++ [stop]) = .ok unit) ↔ ∃ items, TopLevel body items) ∧
    ∀ unit, ofTokens file (body ++ [stop]) = .ok unit ↔
      TopLevel body unit.items ∧ (∀ item ∈ unit.items, item.NearestElse) ∧
        unit.span = ⟨file, 1, 1, stop.span.endLine, stop.span.endColumn⟩ := by
  refine ⟨⟨?_, ?_⟩, fun unit => ⟨program_of_ofTokens stops plain, ?_⟩⟩
  · rintro ⟨unit, parsed⟩
    exact ⟨unit.items, (program_of_ofTokens stops plain parsed).1⟩
  · rintro ⟨_, derived⟩
    obtain ⟨_, derivedOthers, nearest⟩ := derived.exists_nearest
    exact ⟨_, ofTokens_of_program stops plain derivedOthers nearest⟩
  · rintro ⟨derived, nearest, spans⟩
    rw [ofTokens_of_program stops plain derived nearest, ← spans]

/-- The tokens of a function whose body is `if (1) if (2); else;`. -/
private def elseTokens : List Token :=
  [(.voidKeyword, "void"), (.identifier, "f"), (.leftParen, "("), (.rightParen, ")"),
    (.leftBrace, "\x7b"), (.ifKeyword, "if"), (.leftParen, "("), (.integerLiteral, "1"),
    (.rightParen, ")"), (.ifKeyword, "if"), (.leftParen, "("), (.integerLiteral, "2"),
    (.rightParen, ")"), (.semicolon, ";"), (.elseKeyword, "else"), (.semicolon, ";"),
    (.rightBrace, "\x7d")].mapIdx fun index token =>
      ({ kind := token.1, value := token.2, span := Span.point "main.sy" 1 index } : Token)

private def endToken : Token :=
  { kind := .endOfInput, value := "", span := Span.point "main.sy" 1 17 }

theorem ofTokens_accepts_else :
    endToken.kind = .endOfInput ∧ (∀ token ∈ elseTokens, token.kind ≠ .endOfInput) ∧
    ∃ unit, ofTokens "main.sy" (elseTokens ++ [endToken]) = .ok unit ∧
      TopLevel elseTokens unit.items ∧ ∀ item ∈ unit.items, item.NearestElse := by
  have stops : endToken.kind = .endOfInput := rfl
  have plain : ∀ token ∈ elseTokens, token.kind ≠ .endOfInput := by decide
  have accepted : (ofTokens "main.sy" (elseTokens ++ [endToken])).toOption.isSome = true := by decide +kernel
  cases parsed : ofTokens "main.sy" (elseTokens ++ [endToken]) with
  | error =>
    rw [parsed] at accepted
    cases accepted
  | ok unit =>
    obtain ⟨derived, nearest, -⟩ :=
      ((ofTokens_accepts_grammar "main.sy" elseTokens endToken stops plain).2 unit).mp parsed
    exact ⟨stops, plain, unit, rfl, derived, nearest⟩

end CompUnit

end SysYTools
