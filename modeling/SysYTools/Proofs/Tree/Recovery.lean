import SysYTools.Proofs.Tree.Derivation
import SysYTools.Proofs.Tree.Fuel
import SysYTools.Proofs.Tree.Shape

/-!
Going on after errors. A program and a block are loops over items. In each turn an item is read, or it is rejected and
skipped, and either way the turn takes at least one token: a rejected item that has taken none leaves a token to be
skipped.
-/

namespace SysYTools

open List

namespace Parser

variable {α : Type}

/-! ## Turns -/

/-- One turn of a loop over items: an item is read, or it is rejected and the rest of it is skipped. -/
inductive Turn (part : Step α) (outside : Bool) (state : State) : Option α → State → Prop where
  | read {value : α} {after : State} (accepted : part state = .accept value after) :
      Turn part outside state (some value) after
  | skipped {stopped : State} (rejected : part state = .reject stopped) :
      Turn part outside state none (stopped.skipItem outside)

namespace Turn

variable {part : Step α} {outside : Bool} {state after : State} {result : Option α}

theorem exists_of_ne (outside : Bool) (finished : part state ≠ .exhausted) :
    ∃ result after, Turn part outside state result after := by
  cases ran : part state with
  | accept value after => exact ⟨some value, after, .read ran⟩
  | reject stopped => exact ⟨none, stopped.skipItem outside, .skipped ran⟩
  | exhausted => exact absurd ran finished

theorem shorter {post : List Token → α → State → Prop} (turn : Turn part outside state result after)
    (held : part.Holds state 1 post) (closed : state.Closed) (plain : state.current.kind ≠ .endOfInput)
    (inner : outside = false → state.current.kind ≠ .rightBrace) : after.tokens.length < state.tokens.length := by
  have fewer : ∀ {taken : List Token}, state.Reaches after taken → 1 ≤ taken.length →
      after.tokens.length < state.tokens.length := by
    intro taken reached some
    rw [reached.tokens, length_append]
    omega
  unfold Step.Holds at held
  cases turn with
  | read accepted =>
    rw [accepted] at held
    obtain ⟨taken, reached, some, -⟩ := held
    exact fewer reached some
  | skipped rejected =>
    rw [rejected] at held
    obtain ⟨taken, reached, -⟩ := held
    obtain ⟨_, further, -, progress⟩ := skipItem_reaches outside (reached.closed closed)
    refine fewer (reached.trans further) ?_
    cases taken with
    | nil =>
      -- Nothing was taken, so the token to skip is the one at which the turn began.
      have here := (List.cons.inj reached.tokens).1.symm
      simpa using progress (here ▸ plain) (here ▸ inner)
    | cons => simp

end Turn

/-! ## Loops -/

/-- A loop over items: it ends at certain tokens, and elsewhere it reads an item or skips it and goes on. -/
structure LoopsOver (loop : Nat → Step (List α)) (part : Nat → Step α) (outside : Bool)
    (ends : TokenKind → Prop) : Prop where
  empty : loop 0 = .exhausted
  stops : ∀ fuel (state : State), ends state.current.kind → loop (fuel + 1) state = .accept [] state
  goesOn : ∀ fuel (state : State), ¬ ends state.current.kind →
    loop (fuel + 1) state =
      match part fuel state with
      | .accept value after => ((value :: ·) <$> loop fuel) after
      | .reject stopped => loop fuel (stopped.skipItem outside)
      | .exhausted => .exhausted

/-- A loop over items that always makes progress. From every state it ends if it has the fuel that a program of
as many tokens gets. Where it is to end it ends, and elsewhere it takes a turn that leaves fewer tokens and goes
on from there with the items that it still finds. -/
structure Progresses (loop : Nat → Step (List α)) (part : Nat → Step α) (outside : Bool)
    (ends : TokenKind → Prop) : Prop where
  finishes : ∀ fuel (state : State), state.Closed → fuelFor state.tokens.length ≤ fuel →
    ∃ values final, loop fuel state = .accept values final
  stops : ∀ fuel (state : State), ends state.current.kind → loop (fuel + 1) state = .accept [] state
  turns : ∀ fuel (state : State), state.Closed → ¬ ends state.current.kind →
    loop (fuel + 1) state ≠ .exhausted →
    ∃ result after, Turn (part fuel) outside state result after ∧
      after.tokens.length < state.tokens.length ∧
      loop (fuel + 1) state = ((result.toList ++ ·) <$> loop fuel) after

namespace LoopsOver

variable {loop : Nat → Step (List α)} {part : Nat → Step α} {outside : Bool} {ends : TokenKind → Prop}
  (loops : LoopsOver loop part outside ends)
include loops

theorem resume {fuel : Nat} {state after : State} {result : Option α} (inside : ¬ ends state.current.kind)
    (turn : Turn (part fuel) outside state result after) :
    loop (fuel + 1) state = ((result.toList ++ ·) <$> loop fuel) after := by
  rw [loops.goesOn fuel state inside]
  cases turn with
  | read accepted =>
    rw [accepted]
    rfl
  | skipped rejected =>
    rw [rejected]
    change loop fuel _ = Step.andThen (loop fuel) _ _
    rw [Step.andThen]
    cases loop fuel _ <;> rfl

theorem exists_turn {fuel : Nat} {state : State} (inside : ¬ ends state.current.kind)
    (finished : loop (fuel + 1) state ≠ .exhausted) : ∃ result after, Turn (part fuel) outside state result after := by
  refine Turn.exists_of_ne outside fun exhausted => finished ?_
  rw [loops.goesOn fuel state inside, exhausted]

theorem accepts (fuel : Nat) {state : State} (finished : loop fuel state ≠ .exhausted) :
    ∃ values final, loop fuel state = .accept values final ∧ ends final.current.kind := by
  induction fuel generalizing state with
  | zero => exact absurd (congrFun loops.empty state) finished
  | succ fuel ih =>
    by_cases isEnd : ends state.current.kind
    · exact ⟨[], state, loops.stops fuel state isEnd, isEnd⟩
    · obtain ⟨result, after, turn⟩ := loops.exists_turn isEnd finished
      have resumed : _ = Step.andThen (loop fuel) _ after := loops.resume isEnd turn
      rw [resumed, Step.andThen] at finished
      have finishedRest : loop fuel after ≠ .exhausted := by
        intro exhausted
        rw [exhausted] at finished
        exact finished rfl
      obtain ⟨values, final, ran, isEndFinal⟩ := ih finishedRest
      refine ⟨result.toList ++ values, final, ?_, isEndFinal⟩
      rw [resumed, Step.andThen, ran]
      rfl

/-- A loop makes progress if its items do. The fuel of a turn need not be enough for every item: an item that
was read or rejected would have been so with more fuel. -/
theorem progresses (within : ∀ fuel, (part fuel).Within (part (fuel + 1)))
    (inner : ∀ kind, ¬ ends kind → kind ≠ .endOfInput ∧ (outside = false → kind ≠ .rightBrace))
    (partHolds : ∀ fuel (state : State), state.Closed → 4 * state.rest.length + 7 ≤ fuel →
      (part fuel).Holds state 1 fun _ _ _ => True)
    (loopEnds : ∀ fuel (state : State), state.Closed → 4 * state.rest.length + 7 ≤ fuel →
      loop fuel state ≠ .exhausted) : Progresses loop part outside ends where
  finishes fuel state closed adequate := by
    have count : state.tokens.length = state.rest.length + 1 := rfl
    rw [fuelFor] at adequate
    obtain ⟨values, final, ran, -⟩ := loops.accepts fuel (loopEnds fuel state closed (by omega))
    exact ⟨values, final, ran⟩
  stops := loops.stops
  turns fuel state closed inside finished := by
    obtain ⟨result, after, turn⟩ := loops.exists_turn inside finished
    refine ⟨result, after, turn, ?_, loops.resume inside turn⟩
    obtain ⟨plain, notBrace⟩ := inner _ inside
    let more := max fuel (4 * state.rest.length + 7)
    have same : part more state = part fuel state := by
      refine Step.Within.of_le within (le_max_left _ _) state fun exhausted => ?_
      cases turn with
      | read accepted => simp [accepted] at exhausted
      | skipped rejected => simp [rejected] at exhausted
    have richTurn : Turn (part more) outside state result after := by
      cases turn with
      | read accepted => exact .read (same.trans accepted)
      | skipped rejected => exact .skipped (same.trans rejected)
    exact richTurn.shorter (partHolds more state closed (le_max_right _ _)) closed plain notBrace

end LoopsOver

theorem items_loopsOver : LoopsOver items item true (· = .endOfInput) where
  empty := rfl
  stops fuel state isEnd := by
    change (if (state.current.kind == .endOfInput) = true then _ else _ : Step (List Item)) state = _
    rw [if_pos (beq_iff_eq.mpr isEnd)]
    rfl
  goesOn fuel state inside := by
    change (if (state.current.kind == .endOfInput) = true then _ else _ : Step (List Item)) state = _
    rw [if_neg (by simpa using inside)]
    change Step.andThen (item fuel).attempt _ state = _
    rw [Step.andThen, Step.attempt]
    cases item fuel state <;> rfl

theorem blockItems_loopsOver :
    LoopsOver blockItems blockItem false fun kind => kind = .rightBrace ∨ kind = .endOfInput where
  empty := rfl
  stops fuel state isEnd := by
    change (if state.current.kind = .rightBrace ∨ state.current.kind = .endOfInput then _ else _ :
      Step (List BlockItem)) state = _
    rw [if_pos isEnd]
    rfl
  goesOn fuel state inside := by
    change (if state.current.kind = .rightBrace ∨ state.current.kind = .endOfInput then _ else _ :
      Step (List BlockItem)) state = _
    rw [if_neg inside]
    change Step.andThen (blockItem fuel).attempt _ state = _
    rw [Step.andThen, Step.attempt]
    cases blockItem fuel state <;> rfl

theorem items_progresses : Progresses items item true (· = .endOfInput) := by
  refine items_loopsOver.progresses item_within (fun kind inside => ⟨inside, nofun⟩) ?_ ?_
  · intro fuel state closed adequate
    exact (item_holds closed (by omega)).mono le_rfl fun _ _ _ _ => trivial
  · intro fuel state closed adequate exhausted
    have held := items_holds fuel state closed (by omega)
    rwa [Step.Holds, exhausted] at held

theorem blockItems_progresses :
    Progresses blockItems blockItem false fun kind => kind = .rightBrace ∨ kind = .endOfInput := by
  refine blockItems_loopsOver.progresses (fun fuel => (statementsWithin_succ fuel).blockItem)
    (fun kind inside => ⟨fun stop => inside (.inr stop), fun _ brace => inside (.inl brace)⟩) ?_ ?_
  · intro fuel state closed adequate
    exact ((statementsHold fuel).blockItem state closed (by omega)).mono le_rfl fun _ _ _ _ => trivial
  · intro fuel state closed adequate exhausted
    have held := (statementsHold fuel).blockItems state closed (by omega)
    rwa [Step.Holds, exhausted] at held

end Parser

/-! ## Programs -/

namespace CompUnit

open SysYTools.Parser

/-- Going on after errors always makes progress. For tokens that end with the end of the input and have no other,
reading a program comes to an end, the same one with any fuel beyond what it gets, and there only the end of the
input is left. The answer is a program if nothing was reported, and the reports, of which there are some,
otherwise. Each turn of the loop over the items of the program and of the loop over the items of a block takes at
least one token, whether its item is read or rejected and skipped. -/
theorem ofTokens_recovers (file : String) {first : Token} {rest : List Token}
    (closed : (⟨none, first, rest, []⟩ : State).Closed) :
    (∃ program final,
      (∀ fuel, fuelFor (rest.length + 1) ≤ fuel → Parser.items fuel ⟨none, first, rest, []⟩ = .accept program final) ∧
      final.tokens = [final.current] ∧ final.current.kind = .endOfInput ∧
      ((final.reports = [] ∧ ∃ unit, ofTokens file (first :: rest) = .ok unit ∧ unit.items = program) ∨
        (final.reports ≠ [] ∧ ofTokens file (first :: rest) = .error final.reports))) ∧
    Progresses Parser.items item true (· = .endOfInput) ∧
    Progresses blockItems blockItem false fun kind => kind = .rightBrace ∨ kind = .endOfInput := by
  refine ⟨?_, items_progresses, blockItems_progresses⟩
  obtain ⟨program, final, ran⟩ := items_progresses.finishes (fuelFor (rest.length + 1)) _ closed le_rfl
  have notExhausted : Parser.items (fuelFor (rest.length + 1)) ⟨none, first, rest, []⟩ ≠ .exhausted := by
    rw [ran]
    exact nofun
  have isEnd : final.current.kind = .endOfInput := by
    obtain ⟨_, _, ranAgain, isEnd⟩ := items_loopsOver.accepts _ notExhausted
    rw [ran] at ranAgain
    cases ranAgain
    exact isEnd
  refine ⟨program, final, fun fuel more => ?_, ?_, isEnd, ?_⟩
  · exact (Step.Within.of_le items_within more _ notExhausted).trans ran
  · have held := items_holds (fuelFor (rest.length + 1)) _ closed (by simp only [fuelFor]; omega)
    rw [Step.Holds, ran] at held
    obtain ⟨_, reached, -⟩ := held
    exact (reached.closed closed).tokens_of_stop isEnd
  · by_cases quiet : final.reports = []
    · refine .inl ⟨quiet, ?_⟩
      simp only [ofTokens, length_cons, ran, quiet, isEmpty_nil, if_true]
      exact ⟨_, rfl, rfl⟩
    · refine .inr ⟨quiet, ?_⟩
      simp only [ofTokens, length_cons, ran, List.isEmpty_iff, if_neg quiet]

/-- A brace that closes no block, and a declaration that is cut off. -/
theorem ofTokens_recovers_broken :
    (⟨none, ⟨.rightBrace, "\x7d", .nowhere⟩,
      [⟨.intKeyword, "int", .nowhere⟩, ⟨.endOfInput, "", .nowhere⟩], []⟩ : State).Closed ∧
    ∃ program final, (∀ fuel, fuelFor 3 ≤ fuel →
        Parser.items fuel ⟨none, ⟨.rightBrace, "\x7d", .nowhere⟩,
          [⟨.intKeyword, "int", .nowhere⟩, ⟨.endOfInput, "", .nowhere⟩], []⟩ = .accept program final) ∧
      final.tokens = [final.current] ∧ final.current.kind = .endOfInput := by
  have closed : (⟨none, ⟨.rightBrace, "\x7d", .nowhere⟩,
      [⟨.intKeyword, "int", .nowhere⟩, ⟨.endOfInput, "", .nowhere⟩], []⟩ : State).Closed :=
    ⟨[⟨.rightBrace, "\x7d", .nowhere⟩, ⟨.intKeyword, "int", .nowhere⟩], ⟨.endOfInput, "", .nowhere⟩, rfl, rfl,
      by decide⟩
  obtain ⟨⟨program, final, ran, left, isEnd, -⟩, -, -⟩ := ofTokens_recovers "t.sy" closed
  exact ⟨closed, program, final, ran, left, isEnd⟩

end CompUnit

end SysYTools
