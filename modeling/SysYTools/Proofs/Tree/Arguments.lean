import SysYTools.Proofs.Tree.Carrier

/-!
Other arguments for one call of a program. Where the tokens between its parentheses are exchanged for words that are
read as other arguments, the program is read as before but for these arguments.
-/

namespace SysYTools

open List Lexis

variable {unit : CompUnit}

/-! ## The nearest `if` -/

section Nearest

variable {place : Option Span} {given : List Expr}

theorem Stmt.endsOpen_passing (stmt : Stmt) : (stmt.passing place given).endsOpen = stmt.endsOpen :=
  match stmt with
  | .branch _ _ none _ => rfl
  | .branch _ _ (some elsePart) _ => elsePart.endsOpen_passing
  | .loop _ body _ => body.endsOpen_passing
  | .block _ _ | .assign _ _ _ _ _ | .expr _ _ | .breakLoop _ | .continueLoop _ | .giveBack _ _ => rfl

mutual

theorem Stmt.nearestElse_passing (stmt : Stmt) : (stmt.passing place given).NearestElse ↔ stmt.NearestElse :=
  match stmt with
  | .branch _ thenPart none _ => thenPart.nearestElse_passing
  | .branch _ thenPart (some elsePart) _ => by
    simp only [Stmt.passing, Stmt.NearestElse, Stmt.endsOpen_passing, thenPart.nearestElse_passing,
      elsePart.nearestElse_passing]
  | .loop _ body _ => body.nearestElse_passing
  | .block items _ => BlockItem.allNearestElse_passing items
  | .assign _ _ _ _ _ | .expr _ _ | .breakLoop _ | .continueLoop _ | .giveBack _ _ => Iff.rfl

theorem BlockItem.allNearestElse_passing (items : List BlockItem) :
    BlockItem.AllNearestElse (BlockItem.allPassing place given items) ↔ BlockItem.AllNearestElse items :=
  match items with
  | [] => Iff.rfl
  | first :: rest => and_congr first.nearestElse_passing (BlockItem.allNearestElse_passing rest)

theorem BlockItem.nearestElse_passing (item : BlockItem) : (item.passing place given).NearestElse ↔ item.NearestElse :=
  match item with
  | .decl _ => Iff.rfl
  | .stmt statement => statement.nearestElse_passing

end

theorem CompUnit.nearestElse_passing (nearest : ∀ item ∈ unit.items, item.NearestElse) :
    ∀ item ∈ (unit.passing place given).items, item.NearestElse := by
  intro item member
  obtain ⟨item, isItem, rfl⟩ := mem_map.mp member
  cases item with
  | decl => trivial
  | func function => exact (BlockItem.allNearestElse_passing function.body).mpr (nearest _ isItem)

end Nearest

namespace Grammar

variable {place : Option Span} {tokens : List Token}

theorem not_isNumber_of_isSign {kind : TokenKind} (isSign : kind.isSign = true) :
    isNumber kind = false ∧ kind ≠ .identifier := by
  revert isSign
  cases kind <;> simp [TokenKind.isSign, isNumber]

theorem Carries.led {nodes : List Node} {mark : Token} {kind : TokenKind} {form : Form}
    (carries : Carries place nodes tokens form) (found : mark.kind = kind) (other : isNumber kind = false) :
    Carries place nodes (mark :: tokens) (Led kind form) := by
  refine (carries.cons found other).mono ?_
  rintro given _ ⟨mark', rest', rfl, found', -, formed⟩
  exact ⟨mark', rest', rfl, found', formed⟩

/-- Other arguments for the call at a place, and the same definitions. -/
def carrier (place : Option Span) : Carrier place id fun _ => True where
  Takes := Carries place
  mono := Carries.mono
  above := Carries.above
  nil := Carries.nil
  sign found isSign carries := carries.led found (not_isNumber_of_isSign isSign).1
  keyword {_ _ _ kind _} found isKeyword _ carries :=
    carries.led found (by cases kind <;> first | rfl | cases isKeyword)
  part {_ _ _ _ mark _ _ _} _ first found ends second :=
    first.split found second (not_isNumber_of_isSign (found ▸ (ends [] _ _ rfl).1))
  join first ends second := by
    refine first.join second ?_
    rintro last isLast - - -
    rcases ends with rfl | ⟨_, own, rfl, isSign⟩
    · cases isLast
    · obtain rfl : own = last := by simpa using isLast
      exact (not_isNumber_of_isSign isSign).1
  defs inside _ stops := by
    have carries := inside.carries .varDef (fun given var => var.passing place given) VarDef.shape Definition.carries
    refine (carries.concat stops (by decide)).mono ?_
    rintro given _ ⟨left, stop', rfl, ⟨vars', derived', shapes⟩, stops'⟩
    exact ⟨left, stop', vars', rfl, derived', stops', by rw [shapes, map_map]; rfl⟩

/-- The tokens of a call of a program. With words of other arguments between the parentheses, the program is read as
before but for the arguments of this call. -/
theorem TopLevel.exists_call (derived : TopLevel tokens unit.items)
    (nodup : (tokens.map (·.span)).Nodup) {reference : Reference} {arguments : List Expr} {span : Span}
    (isCall : .expr (.call reference arguments span) ∈ (Node.unit unit).walk) :
    ∃ front name opening inner closing back, CallTokens tokens front name opening inner closing back arguments ∧
      name.span = reference.span ∧
      ∀ given inside, ReadAs inside given → ∀ tokens' : List Token, tokens'.map wordOf =
          front.map wordOf ++ wordOf name :: wordOf opening :: (inside ++ wordOf closing :: back.map wordOf) →
        ∃ items', TopLevel tokens' items' ∧
          items'.map (·.shape id) = (unit.passing (some reference.span) given).shape id := by
  obtain ⟨_, isFrame, formed⟩ := (carrier (some reference.span)).topLevel derived (fun _ _ _ _ => trivial) fun _ => nodup
  have passes : Node.AnyPasses (some reference.span) (unit.items.map (·.node)) arguments := by
    rw [Node.walk_eq, mem_cons, mem_flatMap] at isCall
    rcases isCall with same | ⟨item, isItem, below⟩
    · cases same
    · exact ⟨item, isItem, reference, span, rfl, below⟩
  cases isFrame with
  | absent none => exact absurd passes (none arguments)
  | @present front inner back name opening closing arguments' call isPlace only =>
    obtain rfl := (only arguments).mp passes
    exact ⟨front, name, opening, inner, closing, back, call, Option.some.inj isPlace, formed⟩

end Grammar

end SysYTools
