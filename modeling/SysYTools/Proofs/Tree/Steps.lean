import SysYTools.Proofs.Tree.Fuel
import SysYTools.Proofs.Tree.Grammar

/-!
What a part of the parser does to the tokens it is given: it takes some of them off the front, it never
takes back a report, and it comes to an end. It may give up only after a report. What an accepted part
says about the tokens it took is claimed for the case that nothing was reported on the way, since a step
that reports a missing bracket goes on as if the bracket were there.
-/

namespace SysYTools.Parser

open List

variable {taken : List Token} {fewer : Nat} {kind : TokenKind}

namespace State

/-- The tokens that are left, the current one first. -/
def tokens (state : State) : List Token := state.current :: state.rest

/-- The last token that is left, and no other, is the end of the input. -/
def Closed (state : State) : Prop :=
  ∃ body stop, state.tokens = body ++ [stop] ∧ stop.kind = .endOfInput ∧ ∀ token ∈ body, token.kind ≠ .endOfInput

/-- One state comes after another: tokens have been taken, and reports have at most been added. -/
structure Reaches (before after : State) (taken : List Token) : Prop where
  tokens : before.tokens = taken ++ after.tokens
  reports : before.reports <+: after.reports

theorem Reaches.refl (state : State) : state.Reaches state [] := ⟨rfl, prefix_rfl⟩

theorem Reaches.trans {before middle after : State} {more : List Token}
    (first : before.Reaches middle taken) (second : middle.Reaches after more) :
    before.Reaches after (taken ++ more) := by
  refine ⟨?_, first.reports.trans second.reports⟩
  rw [first.tokens, second.tokens, append_assoc]

theorem Reaches.length {before after : State} (reached : before.Reaches after taken) :
    before.rest.length = taken.length + after.rest.length := by
  have lengths := congrArg List.length reached.tokens
  simp only [State.tokens, length_append, length_cons] at lengths
  omega

theorem Reaches.closed {before after : State} {taken : List Token}
    (reached : before.Reaches after taken) (closed : before.Closed) : after.Closed := by
  obtain ⟨_, stop, tokens, stops, plain⟩ := closed
  rw [reached.tokens] at tokens
  rcases append_eq_append_iff.mp tokens with ⟨more, rfl, rest⟩ | ⟨more, rfl, rest⟩
  · exact ⟨more, stop, rest, stops, fun token member => plain token (mem_append_right _ member)⟩
  · -- The end of the input cannot have been taken, since some token is still left.
    have single := congrArg List.length rest
    simp only [State.tokens, length_append, length_cons, length_nil] at single
    have empty : more = [] := eq_nil_of_length_eq_zero (by omega)
    subst empty
    exact ⟨[], stop, by simpa using rest.symm, stops, by simp⟩

theorem Closed.tokens_of_stop {state : State} (closed : state.Closed)
    (stop : state.current.kind = .endOfInput) : state.tokens = [state.current] := by
  obtain ⟨body, _, tokens, -, plain⟩ := closed
  cases body with
  | nil =>
    obtain ⟨here, rest⟩ := List.cons.inj tokens
    rw [State.tokens, rest]
  | cons first =>
    obtain ⟨here, -⟩ := List.cons.inj tokens
    exact absurd (here ▸ stop) (plain first mem_cons_self)

theorem Reaches.quiet {before middle after : State} {taken more : List Token}
    (first : before.Reaches middle taken) (second : middle.Reaches after more)
    (quiet : after.reports = before.reports) : middle.reports = before.reports ∧ after.reports = middle.reports := by
  have back : middle.reports <+: before.reports := quiet ▸ second.reports
  have same : before.reports = middle.reports := first.reports.eq_of_length_le back.length_le
  exact ⟨same.symm, quiet.trans same⟩

theorem reaches_report (state : State) (problem : Problem) (span : Span) :
    state.Reaches (state.report problem span) [] :=
  ⟨rfl, prefix_append _ _⟩

theorem reports_report_ne (state : State) (problem : Problem) (span : Span) :
    (state.report problem span).reports ≠ state.reports := by
  simp [State.report]

theorem reaches_advance {state : State} (closed : state.Closed)
    (more : state.current.kind ≠ .endOfInput) : state.Reaches state.advance [state.current] := by
  obtain ⟨_, _, tokens, stops, -⟩ := closed
  cases rest : state.rest with
  | nil =>
    have same := congrArg List.getLast? tokens
    simp only [State.tokens, rest, getLast?_singleton, getLast?_append, Option.some_or, Option.some.injEq] at same
    exact absurd (same ▸ stops) more
  | cons =>
    refine ⟨?_, ?_⟩
    · simp [State.tokens, State.advance, rest]
    · simp [State.advance, rest]

end State

variable {α β : Type}

/-- A step comes to an end. If it accepts, it has taken at least `least` tokens, and if it did so
without a report, `post` relates them to its value and to the state after them. If it rejects, it has
reported. -/
def Step.Holds (step : Step α) (before : State) (least : Nat)
    (post : List Token → α → State → Prop) : Prop :=
  match step before with
  | .accept value after => ∃ taken, before.Reaches after taken ∧ least ≤ taken.length ∧
      (after.reports = before.reports → post taken value after)
  | .reject after => ∃ taken, before.Reaches after taken ∧ after.reports ≠ before.reports
  | .exhausted => False

namespace Step.Holds

variable {state : State} {least : Nat} {post : List Token → α → State → Prop}

theorem pure {value : α} (done : post [] value state) : (Pure.pure value : Step α).Holds state 0 post :=
  ⟨[], .refl state, Nat.le_refl 0, fun _ => done⟩

theorem fail {problem : Problem} {span : Span} : (Parser.fail problem span : Step α).Holds state least post :=
  ⟨[], state.reaches_report problem span, state.reports_report_ne problem span⟩

theorem mono {step : Step α} {weaker : List Token → α → State → Prop}
    (held : step.Holds state least post) (few : fewer ≤ least)
    (weaken : ∀ taken value final, post taken value final → weaker taken value final) :
    step.Holds state fewer weaker := by
  unfold Step.Holds at held ⊢
  cases ran : step state with
  | accept =>
    rw [ran] at held
    obtain ⟨taken, reached, enough, done⟩ := held
    exact ⟨taken, reached, few.trans enough, fun quiet => weaken _ _ _ (done quiet)⟩
  | reject | exhausted =>
    rw [ran] at held
    exact held

theorem after {before : State} {first second : Step α}
    (same : first before = second state) (reached : before.Reaches state taken)
    (held : second.Holds state (least - taken.length) fun more result final =>
      state.reports = before.reports → post (taken ++ more) result final) : first.Holds before least post := by
  unfold Step.Holds at held ⊢
  rw [same]
  cases ran : second state with
  | accept =>
    rw [ran] at held
    obtain ⟨more, further, _, done⟩ := held
    refine ⟨taken ++ more, reached.trans further, ?_, fun quiet => ?_⟩
    · rw [length_append]
      omega
    · have parts := reached.quiet further quiet
      exact done parts.2 parts.1
  | reject =>
    rw [ran] at held
    obtain ⟨more, further, reported⟩ := held
    exact ⟨taken ++ more, reached.trans further, fun quiet => reported (reached.quiet further quiet).2⟩
  | exhausted =>
    rw [ran] at held
    exact held

theorem bind {first : Step β} {second : β → Step α}
    {middle : List Token → β → State → Prop} (closed : state.Closed) (held : first.Holds state fewer middle)
    (next : ∀ (taken : List Token) (value : β) (after : State), after.Closed →
      after.rest.length + fewer ≤ state.rest.length →
      (second value).Holds after (least - fewer) fun more result final =>
        middle taken value after → post (taken ++ more) result final) : (first >>= second).Holds state least post := by
  have unfolded : (first >>= second) state = first.andThen second state := rfl
  unfold Step.Holds at held
  cases ran : first state with
  | accept value middleState =>
    rw [ran] at held
    obtain ⟨taken, reached, _, done⟩ := held
    have shorter := reached.length
    refine after (by rw [unfolded, andThen, ran]) reached ?_
    refine (next taken value middleState (reached.closed closed) (by omega)).mono (by omega) ?_
    exact fun more result final follows quiet => follows (done quiet)
  | reject =>
    rw [ran] at held
    simp only [Step.Holds, unfolded, andThen, ran]
    exact held
  | exhausted =>
    rw [ran] at held
    exact held.elim

theorem finish {step : Step β} {change : β → α} {more : Nat} {middle : List Token → β → State → Prop}
    (held : step.Holds state more middle)
    (done : ∀ taken value after, middle taken value after → post taken (change value) after)
    (few : least ≤ more) :
    (step >>= fun value => Pure.pure (change value)).Holds state least post := by
  have unfolded : (step >>= fun value => Pure.pure (change value)) state =
      step.andThen (fun value => Pure.pure (change value)) state := rfl
  unfold Step.Holds at held ⊢
  rw [unfolded, andThen]
  cases ran : step state with
  | accept value stopped =>
    rw [ran] at held
    obtain ⟨taken, reached, enough, formed⟩ := held
    exact ⟨taken, reached, few.trans enough, fun quiet => done taken value stopped (formed quiet)⟩
  | reject | exhausted =>
    rw [ran] at held
    exact held

theorem map {step : Step β} {change : β → α} {form : List Token → β → State → Prop}
    (held : step.Holds state least form) :
    (change <$> step).Holds state least fun taken result final =>
      ∃ value, result = change value ∧ form taken value final :=
  finish held (fun _ value _ formed => ⟨value, rfl, formed⟩) le_rfl

theorem take (closed : state.Closed) (more : state.current.kind ≠ .endOfInput) :
    Parser.take.Holds state 1 fun taken token _ => taken = [token] ∧ token = state.current :=
  ⟨_, State.reaches_advance closed more, Nat.le_refl 1, fun _ => ⟨rfl, rfl⟩⟩

end Step.Holds

/-! ## Steps that look or take one token -/

section Looking

variable {state : State} {least : Nat} {post : List Token → α → State → Prop}

@[simp] theorem current_bind_holds {next : Token → Step α} :
    (current >>= next).Holds state least post ↔ (next state.current).Holds state least post :=
  Iff.rfl

@[simp] theorem sees_bind_holds {next : Bool → Step α} :
    (sees kind >>= next).Holds state least post ↔ (next (state.current.kind == kind)).Holds state least post :=
  Iff.rfl

@[simp] theorem kindAhead_bind_holds {distance : Nat} {next : TokenKind → Step α} :
    (kindAhead distance >>= next).Holds state least post ↔ (next (state.kindAhead distance)).Holds state least post :=
  Iff.rfl

@[simp] theorem pure_bind_holds {value : β} {next : β → Step α} :
    ((Pure.pure value : Step β) >>= next).Holds state least post ↔ (next value).Holds state least post :=
  Iff.rfl

end Looking

section Tokens

variable {state : State} (closed : state.Closed)
include closed

theorem expect_holds (plain : kind ≠ .endOfInput) (expectation : Expectation) :
    (expect kind expectation).Holds state 1 fun taken token _ => taken = [token] ∧ token.kind = kind := by
  simp only [expect, current_bind_holds]
  split
  next found => exact ⟨_, State.reaches_advance closed (found ▸ plain), Nat.le_refl 1, fun _ => ⟨rfl, found⟩⟩
  · exact .fail

theorem close_holds (plain : kind ≠ .endOfInput) (problem : String → Problem) :
    (close kind problem).Holds state 0 fun taken span _ =>
      ∃ token, taken = [token] ∧ token.kind = kind ∧ span = token.span := by
  unfold Step.Holds close
  split_ifs with found
  · exact ⟨_, State.reaches_advance closed (found ▸ plain), Nat.zero_le _,
      fun _ => ⟨_, rfl, found, rfl⟩⟩
  · exact ⟨[], state.reaches_report _ _, Nat.zero_le _, fun quiet => absurd quiet (state.reports_report_ne _ _)⟩

theorem Step.Holds.closing (plain : kind ≠ .endOfInput) {problem : String → Problem}
    {make : Span → α} {post : List Token → α → State → Prop}
    (done : ∀ after token, token.kind = kind → post [token] (make token.span) after) :
    (close kind problem >>= fun stop => Pure.pure (make stop)).Holds state 0 post := by
  refine .finish (close_holds closed plain problem) ?_ (by omega)
  rintro taken stop after ⟨token, rfl, found, rfl⟩
  exact done after token found

theorem openParen_holds (keyword : String) :
    (openParen keyword).Holds state 0 fun taken _ _ => ∃ token, taken = [token] ∧ token.kind = .leftParen := by
  simp only [openParen, current_bind_holds]
  split
  next found =>
    exact ⟨_, State.reaches_advance closed (by simp [found]), Nat.zero_le _, fun _ => ⟨_, rfl, found⟩⟩
  · exact ⟨[], state.reaches_report _ _, Nat.zero_le _, fun quiet => absurd quiet (state.reports_report_ne _ _)⟩

theorem baseType_holds :
    baseType.Holds state 1 fun taken result _ => taken = [result.2] ∧ result.2 = state.current ∧
        BaseType.ofKind? result.2.kind = some result.1 := by
  simp only [baseType, current_bind_holds]
  split
  next type found =>
    have plain : state.current.kind ≠ .endOfInput := by
      intro stop
      simp [stop, BaseType.ofKind?] at found
    exact ⟨_, State.reaches_advance closed plain, Nat.le_refl 1, fun _ => ⟨rfl, rfl, found⟩⟩
  · exact .fail

end Tokens

/-! ## Lists with commas -/

theorem Step.Holds.separated {state : State} (closed : state.Closed) {part : Step β}
    {rest : Step (List β)} {form : List Token → β → Prop} {list : List Token → List β → Prop}
    (partHolds : part.Holds state 1 fun taken value _ => form taken value)
    (restHolds : ∀ after : State, after.Closed → after.rest.length + 2 ≤ state.rest.length →
      rest.Holds after 1 fun taken values _ => list taken values)
    (single : ∀ {taken value}, form taken value → list taken [value])
    (cons : ∀ {taken value more values} {comma : Token}, form taken value → comma.kind = .comma →
      list more values → list (taken ++ comma :: more) (value :: values)) :
    (part.separated rest).Holds state 1 fun taken values _ => list taken values := by
  refine .bind closed partHolds ?_
  intro taken first afterFirst closedFirst shorterFirst
  simp only [sees_bind_holds]
  split
  next comma =>
    rw [beq_iff_eq] at comma
    refine .bind closedFirst (.take closedFirst (by simp [comma])) ?_
    intro commas mark afterComma closedComma shorterComma
    refine .finish (restHolds afterComma closedComma (by omega)) ?_ (by omega)
    rintro more values after formedRest ⟨rfl, rfl⟩ formed
    simpa using cons formed comma formedRest
  · refine .pure ?_
    intro formed
    simpa using single formed

/-! ## Going on after a rejected item -/

private theorem skipItem_go_reaches (outside : Bool) (rest : List Token) (state : State)
    (closed : state.Closed) (same : state.rest = rest) :
    ∃ taken, state.Reaches (State.skipItem.go outside rest state) taken ∧
      (State.skipItem.go outside rest state).reports = state.reports ∧
      (state.current.kind ≠ .endOfInput → (outside = false → state.current.kind ≠ .rightBrace) →
        1 ≤ taken.length) := by
  induction rest generalizing state with
  | nil =>
    refine ⟨[], .refl state, rfl, fun plain => ?_⟩
    have shorter := (State.reaches_advance closed plain).length
    simp only [same, length_nil, length_cons] at shorter
    omega
  | cons next rest ih =>
    have advanced : state.advance.rest = rest ∧ state.advance.reports = state.reports := by simp [State.advance, same]
    unfold State.skipItem.go
    split
    next stop => exact ⟨[], .refl state, rfl, fun plain => absurd stop plain⟩
    next found =>
      have reached := State.reaches_advance closed (by simp [found])
      exact ⟨_, reached, advanced.2, fun _ _ => Nat.le_refl 1⟩
    next found =>
      have reached := State.reaches_advance closed (by simp [found])
      cases outside with
      | true => exact ⟨_, reached, advanced.2, fun _ _ => Nat.le_refl 1⟩
      | false => exact ⟨[], .refl state, rfl, fun _ inner => absurd found (inner rfl)⟩
    next plain _ _ =>
      have reached := State.reaches_advance closed plain
      obtain ⟨_, further, quiet, -⟩ := ih state.advance (reached.closed closed) advanced.1
      refine ⟨_, reached.trans further, quiet.trans advanced.2, fun _ _ => ?_⟩
      simp

theorem skipItem_reaches (outside : Bool) {state : State} (closed : state.Closed) :
    ∃ taken, state.Reaches (state.skipItem outside) taken ∧ (state.skipItem outside).reports = state.reports ∧
      (state.current.kind ≠ .endOfInput → (outside = false → state.current.kind ≠ .rightBrace) → 1 ≤ taken.length) :=
  skipItem_go_reaches outside state.rest state closed rfl

/-- A list of items goes on after an item, whether it was accepted or not. After one that was rejected a
report stands, so nothing is claimed about the tokens; but at least one of them has been taken. -/
theorem Step.Holds.recover {state : State} {step : Step β} {next : Option β → Step α}
    {continuation : Step α} {outside : Bool} {middle : List Token → β → State → Prop}
    {post : List Token → α → State → Prop} (closed : state.Closed) (plain : state.current.kind ≠ .endOfInput)
    (inner : outside = false → state.current.kind ≠ .rightBrace) (held : step.Holds state 1 middle)
    (skips : next none = (skipItem outside >>= fun _ => continuation))
    (accepted : ∀ (taken : List Token) (value : β) (after : State), after.Closed →
      after.rest.length + 1 ≤ state.rest.length →
      (next (some value)).Holds after 0 fun more result final =>
        middle taken value after → post (taken ++ more) result final)
    (rejected : ∀ after : State, after.Closed → after.rest.length + 1 ≤ state.rest.length →
      continuation.Holds after 0 fun _ _ _ => True) : (step.attempt >>= next).Holds state 0 post := by
  have unfolded : (step.attempt >>= next) state = step.attempt.andThen next state := rfl
  unfold Step.Holds at held
  cases ran : step state with
  | accept value stopped =>
    rw [ran] at held
    obtain ⟨taken, reached, enough, done⟩ := held
    have shorter := reached.length
    refine after (by rw [unfolded, andThen, attempt, ran]) reached ?_
    refine (accepted taken value stopped (reached.closed closed) (by omega)).mono (by omega) ?_
    exact fun more result final follows quiet => follows (done quiet)
  | reject stopped =>
    rw [ran] at held
    obtain ⟨taken, reached, reported⟩ := held
    obtain ⟨skipped, further, silent, progress⟩ := skipItem_reaches outside (reached.closed closed)
    -- A step that rejects without having taken a token leaves the one it started with to be skipped.
    have enough : 1 ≤ (taken ++ skipped).length := by
      cases taken with
      | nil =>
        have here : stopped.current = state.current := (List.cons.inj reached.tokens).1.symm
        simpa using progress (here ▸ plain) (here ▸ inner)
      | cons => simp
    have same : (step.attempt >>= next) state = continuation (stopped.skipItem outside) := by
      rw [unfolded, andThen, attempt, ran]
      change next none stopped = _
      rw [skips]
      rfl
    have shorter := (reached.trans further).length
    refine after same (reached.trans further) ?_
    refine (rejected _ ((reached.trans further).closed closed) (by omega)).mono (by omega) ?_
    exact fun _ _ _ _ quiet => absurd (silent.symm.trans quiet) reported
  | exhausted =>
    rw [ran] at held
    exact held.elim

end SysYTools.Parser
