import SysYTools.Proofs.Tree.Derivation

/-!
Putting in a mark that the parser missed. A missing semicolon, parenthesis or bracket is reported and read
as if it were there, so two runs are compared: one over some tokens, which gives the report, and one over
the same tokens with the mark put in behind the token that the report names.

The two runs go through the same states up to the mark. There the first one may close several brackets
one after another without taking a token, and of these the second one closes the first that the mark
fits. From then on the second run has one report less. Should the first run pass the mark otherwise, the
report never comes about, and nothing is claimed about the second run.
-/

namespace SysYTools.Parser

open List

variable {kind : TokenKind} {other state state' : State} {problem : Problem}

/-- The kind of mark that a problem misses, for the marks that can be put in where they are missed. -/
inductive Mends : TokenKind → Problem → Prop where
  | semicolon {after : String} : Mends .semicolon (.missingSemicolon after)
  | paren {after : String} : Mends .rightParen (.missingBracket ')' after)
  | bracket {after : String} : Mends .rightBracket (.missingBracket ']' after)

theorem Mends.kind_unique {other : TokenKind} (mends : Mends kind problem) (also : Mends other problem) :
    kind = other := by
  cases mends with
  | _ => cases also; rfl

theorem Mends.kind_cases (mends : Mends kind problem) :
    kind = .semicolon ∨ kind = .rightParen ∨ kind = .rightBracket := by
  cases mends with
  | semicolon => exact .inl rfl
  | paren => exact .inr (.inl rfl)
  | bracket => exact .inr (.inr rfl)

theorem Mends.code_of_ne (mends : Mends kind problem) (other : kind ≠ .semicolon) :
    problem.code = .unmatchedBrackets := by
  cases mends with
  | semicolon => exact absurd rfl other
  | paren | bracket => rfl

/-- A report of one run, by its number and its content, and the mark that the other run finds in its
place. -/
structure Mending where
  mark : Token
  target : Report
  index : Nat
  fits : Mends mark.kind target.problem

namespace State

def codes (state : State) : List Code := state.reports.map (·.problem.code)

section

variable (state : State) (problem : Problem) (span : Span)

@[simp] theorem codes_report : (state.report problem span).codes = state.codes ++ [problem.code] := by
  simp [codes, State.report]

@[simp] theorem tokens_report : (state.report problem span).tokens = state.tokens := rfl

@[simp] theorem previous_report : (state.report problem span).previous = state.previous := rfl

@[simp] theorem length_reports_report : (state.report problem span).reports.length = state.reports.length + 1 := by
  simp [State.report]

end

theorem Closed.report {state : State} (closed : state.Closed) (problem : Problem) (span : Span) :
    (state.report problem span).Closed :=
  (state.reaches_report problem span).closed closed

theorem length_codes (state : State) : state.codes.length = state.reports.length := length_map _

theorem advance_of_tokens {state : State} {first : Token} {more : List Token}
    (tokens : state.tokens = first :: more) (some : more ≠ []) :
    state.advance.tokens = more ∧ state.advance.previous = .some first ∧ state.advance.reports = state.reports := by
  obtain ⟨rfl, rest⟩ := List.cons.inj tokens
  obtain ⟨_, _, rfl⟩ := exists_cons_of_ne_nil some
  simp [State.advance, rest, State.tokens]

theorem Closed.kind_ne_of_tokens (closed : state.Closed) {first : Token} {more : List Token}
    (tokens : state.tokens = first :: more) (some : more ≠ []) : first.kind ≠ .endOfInput := by
  intro stop
  obtain ⟨rfl, -⟩ := List.cons.inj tokens
  have single := closed.tokens_of_stop stop
  rw [tokens] at single
  exact some (List.cons.inj single).2

theorem Closed.advance {state : State} (closed : state.Closed) (plain : state.current.kind ≠ .endOfInput) :
    state.advance.Closed ∧ state.tokens = state.current :: state.advance.tokens ∧
      state.advance.previous = some state.current ∧ state.advance.reports = state.reports := by
  have reached := reaches_advance closed plain
  have rest : state.rest = state.advance.tokens := by
    have tokens := reached.tokens
    simpa [State.tokens] using tokens
  have some : state.rest ≠ [] := by
    rw [rest]
    simp [State.tokens]
  obtain ⟨-, previous, reports⟩ := @advance_of_tokens state _ _ rfl some
  exact ⟨reached.closed closed, reached.tokens, previous, reports⟩

end State

def kinds (tokens : List Token) : List TokenKind := tokens.map (·.kind)

theorem kind_current_of_kinds (same : kinds state.tokens = kinds other.tokens) :
    state.current.kind = other.current.kind := by
  simp only [kinds, State.tokens, map_cons, List.cons.injEq] at same
  exact same.1

theorem kinds_advance (closed : state.Closed) (plain : state.current.kind ≠ .endOfInput)
    (same : kinds state.tokens = kinds other.tokens) :
    kinds state.advance.tokens = kinds other.advance.tokens ∧ other.advance.reports = other.reports := by
  obtain ⟨-, tokens, -, -⟩ := closed.advance plain
  rw [tokens] at same
  have some : other.rest ≠ [] := by
    intro none
    simp [kinds, State.tokens, none] at same
  obtain ⟨left, -, reports⟩ := @State.advance_of_tokens other _ _ rfl some
  rw [left]
  simp only [kinds, State.tokens, map_cons, List.cons.injEq] at same ⊢
  exact ⟨same.2, reports⟩

namespace Mending

variable (mending : Mending)

/-- No token is left that the report could name. -/
def Clear (tokens : List Token) : Prop := ∀ token ∈ tokens, token.kind ≠ .endOfInput → token.span ≠ mending.target.span

/-- The report does not come about with its number, whatever item is read next. -/
structure Faded (state : State) : Prop where
  closed : state.Closed
  differs : state.reports[mending.index]? ≠ some mending.target
  gone : mending.index < state.reports.length ∨ mending.Clear state.tokens

/-- The report does not come about with its number, however the item that is being read goes on. -/
structure Lost (state : State) : Prop extends Faded mending state where
  behind : mending.index < state.reports.length ∨
    ∃ token, state.previous = some token ∧ token.span ≠ mending.target.span

/-- The two runs are at the same token, and the mark is still ahead. -/
structure Before (state other : State) : Prop where
  closed : state.Closed
  split : ∃ front back front' back', front ≠ [] ∧ back ≠ [] ∧ state.tokens = front ++ back ∧
    other.tokens = front' ++ mending.mark :: back' ∧ kinds front = kinds front' ∧
    kinds back = kinds back' ∧ mending.Clear (front.dropLast ++ back)
  codes : state.codes = other.codes
  early : state.reports.length ≤ mending.index
  behind : ∀ token, state.previous = some token → token.span ≠ mending.target.span

/-- The second run is at the mark, and the first one at the token after it. -/
structure Gap (state other : State) : Prop where
  closed : state.Closed
  split : ∃ back, other.tokens = mending.mark :: back ∧ kinds state.tokens = kinds back
  codes : state.codes = other.codes
  early : state.reports.length ≤ mending.index
  clear : mending.Clear state.tokens

/-- The second run has taken the mark for an earlier report of the same code, and both runs are still at
the token after the mark. -/
structure Late (state other : State) : Prop where
  closed : state.Closed
  tokens : kinds state.tokens = kinds other.tokens
  bracket : mending.target.problem.code = .unmatchedBrackets
  codes : state.codes = other.codes ++ [mending.target.problem.code]
  early : state.reports.length ≤ mending.index
  clear : mending.Clear state.tokens

/-- The report has been given, and the second run has done without it. -/
structure Past (state other : State) : Prop where
  closed : state.Closed
  tokens : kinds state.tokens = kinds other.tokens
  codes : other.codes = state.codes.eraseIdx mending.index
  given : mending.index < state.reports.length

/-- Whether an item is being read, which may close brackets without taking a token, or whether the next
thing read is an item of its own. -/
inductive Level where
  | inner
  | outer

/-- The first run does not give the report any more. -/
def Misses : Level → State → Prop
  | .inner, state => mending.Lost state
  | .outer, state => mending.Faded state

/-- The two runs correspond. -/
def Tied : Level → State → State → Prop
  | .inner, state, other =>
    (mending.Before state other ∧ state.previous ≠ none) ∨ mending.Gap state other ∨
      mending.Late state other ∨ mending.Past state other
  | .outer, state, other => mending.Before state other ∨ mending.Past state other

/-- A step of the first run from a state where it misses the report. -/
def Sinks {α : Type} (level : Level) (step : Step α) (state : State) : Prop :=
  match step state with
  | .accept _ after => mending.Misses level after
  | .reject after => mending.Faded after
  | .exhausted => True

/-- A step of both runs from states that correspond. -/
def Meets {α : Type} (level : Level) (same : α → α → Prop) (step other : Step α) (state state' : State) :
    Prop :=
  match step state with
  | .accept value after => mending.Misses level after ∨
      ∃ value' after', other state' = .accept value' after' ∧ same value value' ∧ mending.Tied level after after'
  | .reject after => mending.Faded after ∨
      ∃ after', other state' = .reject after' ∧ mending.Tied .outer after after'
  | .exhausted => True

/-- Two steps take corresponding states, at a token of some kinds, to corresponding states, unless the
first run misses the report. -/
structure FollowsOn {α : Type} (on : TokenKind → Prop) (before after : Level) (same : α → α → Prop)
    (step other : Step α) : Prop where
  sinks : ∀ state, on state.current.kind → mending.Misses before state → mending.Sinks after step state
  meets : ∀ state state', on state.current.kind → mending.Tied before state state' →
    mending.Meets after same step other state state'

/-- Two steps take corresponding states to corresponding states, at any token. -/
def Follows {α : Type} : (before after : Level) → (same : α → α → Prop) → (step other : Step α) → Prop :=
  mending.FollowsOn fun _ => True

/-- Two steps take corresponding states to corresponding states, whatever they give. -/
abbrev Keeps {α : Type} (before after : Level) : (step other : Step α) → Prop :=
  mending.Follows before after fun _ _ => True

variable {mending}

/-! ## States where the report is missed -/

theorem Misses.faded {level : Level} (misses : mending.Misses level state) : mending.Faded state := by
  cases level with
  | inner => exact Lost.toFaded misses
  | outer => exact misses

theorem Faded.report {state : State} (faded : mending.Faded state) {problem : Problem} {span : Span}
    (other : { problem, span : Report } ≠ mending.target) : mending.Faded (state.report problem span) where
  closed := faded.closed.report problem span
  differs := by
    have before := faded.differs
    simp only [State.report]
    rcases Nat.lt_trichotomy mending.index state.reports.length with less | same | more
    · rwa [getElem?_append_left less]
    · rw [same, getElem?_concat_length]
      simpa using other
    · rw [getElem?_eq_none (by simp; omega)]
      simp
  gone := by
    rcases faded.gone with passed | clear
    · exact .inl (by simp; omega)
    · exact .inr clear

theorem Faded.advance {state : State} (faded : mending.Faded state)
    (plain : state.current.kind ≠ .endOfInput) : mending.Lost state.advance := by
  obtain ⟨closed, tokens, previous, reports⟩ := faded.closed.advance plain
  refine ⟨⟨closed, ?_, ?_⟩, ?_⟩
  · rw [reports]
    exact faded.differs
  · rw [reports]
    refine faded.gone.imp_right fun clear token member => clear token ?_
    rw [tokens]
    exact mem_cons_of_mem _ member
  · rw [reports]
    refine faded.gone.imp_right fun clear => ⟨state.current, previous, clear state.current ?_ plain⟩
    exact mem_cons_self

theorem Lost.report {state : State} (lost : mending.Lost state) (problem : Problem) :
    mending.Lost (state.report problem state.last.span) := by
  have faded := lost.toFaded
  rcases lost.behind with passed | ⟨token, previous, elsewhere⟩
  · refine ⟨⟨faded.closed.report _ _, ?_, .inl (by simp; omega)⟩, .inl (by simp; omega)⟩
    have before := faded.differs
    simp only [State.report]
    rwa [getElem?_append_left passed]
  · refine ⟨faded.report ?_, .inr ⟨token, previous, elsewhere⟩⟩
    intro same
    apply elsewhere
    rw [← same]
    simp [State.last, previous]

theorem lost_of_index (closed : state.Closed) (given : mending.index < state.reports.length)
    (differs : state.reports[mending.index]? ≠ some mending.target) : mending.Lost state :=
  ⟨⟨closed, differs, .inl given⟩, .inl given⟩

/-! ## States that correspond -/

theorem Before.kind_current (before : mending.Before state other) : state.current.kind = other.current.kind := by
  obtain ⟨front, _, front', _, some, -, tokens, tokens', same, -, -⟩ := before.split
  obtain ⟨_, _, rfl⟩ := exists_cons_of_ne_nil some
  obtain ⟨first', front', rfl, -⟩ := map_eq_cons_iff.mp same.symm
  obtain ⟨here, -⟩ := List.cons.inj tokens
  obtain ⟨here', -⟩ := List.cons.inj tokens'
  simp only [kinds, map_cons, List.cons.injEq] at same
  rw [here, here', same.1]

theorem Tied.kind_current {state other : State} (tied : mending.Tied .outer state other) :
    state.current.kind = other.current.kind := by
  rcases tied with before | past
  · exact before.kind_current
  · exact kind_current_of_kinds past.tokens

theorem Gap.faded (gap : mending.Gap state other) : mending.Faded state := by
  refine ⟨gap.closed, ?_, .inr gap.clear⟩
  rw [getElem?_eq_none gap.early]
  simp

theorem Late.faded (late : mending.Late state other) : mending.Faded state := by
  refine ⟨late.closed, ?_, .inr late.clear⟩
  rw [getElem?_eq_none late.early]
  simp

/-- At the mark, and as long as the report is late, the report is missed unless it comes about within the
item that is being read. -/
theorem Tied.faded_or_outer {level : Level} (tied : mending.Tied level state other) :
    mending.Faded state ∨ mending.Tied .outer state other := by
  cases level with
  | outer => exact .inr tied
  | inner =>
    rcases tied with ⟨before, -⟩ | gap | late | past
    · exact .inr (.inl before)
    · exact .inl gap.faded
    · exact .inl late.faded
    · exact .inr (.inr past)

theorem Tied.kind_ne {level : Level} (tied : mending.Tied level state other) (unlike : mending.mark.kind ≠ kind)
    (here : state.current.kind ≠ kind) : other.current.kind ≠ kind := by
  cases level with
  | outer => exact Tied.kind_current tied ▸ here
  | inner =>
    rcases tied with ⟨before, -⟩ | gap | late | past
    · exact before.kind_current ▸ here
    · obtain ⟨_, tokens, -⟩ := gap.split
      obtain ⟨mark, -⟩ := List.cons.inj tokens
      rw [mark]
      exact unlike
    · exact kind_current_of_kinds late.tokens ▸ here
    · exact kind_current_of_kinds past.tokens ▸ here

theorem Before.advance {state other : State} (before : mending.Before state other) :
    mending.Tied .inner state.advance other.advance := by
  obtain ⟨front, back, front', back', some, someBack, tokens, tokens', same, sameBack, clear⟩ := before.split
  obtain ⟨first, front, rfl⟩ := exists_cons_of_ne_nil some
  obtain ⟨first', front', rfl, -⟩ := map_eq_cons_iff.mp same.symm
  obtain ⟨left, previous, reports⟩ := State.advance_of_tokens tokens (by simp [someBack])
  obtain ⟨left', -, reports'⟩ := State.advance_of_tokens tokens' (by simp)
  have closed : state.advance.Closed := by
    refine @State.Reaches.closed state _ [first] ⟨?_, ?_⟩ before.closed
    · rw [tokens, left]
      rfl
    · rw [reports]
  have codes : state.advance.codes = other.advance.codes := by
    have here := before.codes
    rw [State.codes, State.codes] at here ⊢
    rw [reports, reports', here]
  have early : state.advance.reports.length ≤ mending.index := by
    rw [reports]
    exact before.early
  simp only [kinds, map_cons, List.cons.injEq] at same
  cases front with
  | nil =>
    obtain rfl : front' = [] := by simpa using same.2.symm
    refine .inr (.inl ⟨closed, ⟨back', left', ?_⟩, codes, early, ?_⟩)
    · rw [left]
      exact sameBack
    · rw [left]
      simpa using clear
  | cons second front =>
    refine .inl ⟨⟨closed, ⟨second :: front, back, front', back', by simp, someBack, left, left', same.2,
      sameBack, ?_⟩, codes, early, ?_⟩, by simp [previous]⟩
    · intro token member
      exact clear token (by simpa using .inr (by simpa using member))
    · intro token here
      obtain rfl : first = token := by simpa [previous] using here
      have plain : first.kind ≠ .endOfInput := before.closed.kind_ne_of_tokens tokens (by simp)
      exact clear first (by simp) plain

/-! ## Steps one after another -/

section Rules

variable {α β : Type} {on : TokenKind → Prop} {before middle after : Level} {same : α → α → Prop}

theorem Meets.of_sinks {level : Level} {step : Step α} (sinks : mending.Sinks level step state) (other : Step α)
    (state' : State) : mending.Meets level same step other state state' := by
  unfold Sinks at sinks
  unfold Meets
  cases ran : step state with
  | accept | reject =>
    rw [ran] at sinks
    exact .inl sinks
  | exhausted => trivial

theorem Sinks.bind {step : Step β} {next : β → Step α} (first : mending.Sinks middle step state)
    (second : ∀ value final, mending.Misses middle final → mending.Sinks after (next value) final) :
    mending.Sinks after (step >>= next) state := by
  have unfolded : (step >>= next) state = step.andThen next state := rfl
  unfold Sinks at first ⊢
  rw [unfolded, Step.andThen]
  cases ran : step state with
  | accept value final =>
    rw [ran] at first
    exact second value final first
  | reject =>
    rw [ran] at first
    exact first
  | exhausted => trivial

section

variable {step other : Step β} {next next' : β → Step α} {related : β → β → Prop}

theorem Meets.bind
    (first : mending.Meets middle related step other state state')
    (sinks : ∀ value final, mending.Misses middle final → mending.Sinks after (next value) final)
    (second : ∀ value value' final final', related value value' → mending.Tied middle final final' →
      mending.Meets after same (next value) (next' value') final final') :
    mending.Meets after same (step >>= next) (other >>= next') state state' := by
  have unfolded : (step >>= next) state = step.andThen next state := rfl
  have unfolded' : (other >>= next') state' = other.andThen next' state' := rfl
  unfold Meets at first
  cases ran : step state with
  | accept value final =>
    rw [ran] at first
    rcases first with misses | ⟨value', final', ran', values, tied⟩
    · have sunk := sinks value final misses
      have here : mending.Sinks after (step >>= next) state := by
        unfold Sinks
        rw [unfolded, Step.andThen, ran]
        exact sunk
      exact .of_sinks here _ _
    · have met := second value value' final final' values tied
      unfold Meets
      rw [unfolded, unfolded', Step.andThen, Step.andThen, ran, ran']
      exact met
  | reject =>
    rw [ran] at first
    unfold Meets
    rw [unfolded, unfolded', Step.andThen, Step.andThen, ran]
    rcases first with faded | ⟨final', ran', tied⟩
    · exact .inl faded
    · exact .inr ⟨final', by rw [ran'], tied⟩
  | exhausted =>
    unfold Meets
    rw [unfolded, Step.andThen, ran]
    trivial

theorem FollowsOn.bind
    (first : mending.FollowsOn on before middle related step other) (refl : ∀ value, related value value)
    (second : ∀ value value', related value value' → mending.Follows middle after same (next value) (next' value')) :
    mending.FollowsOn on before after same (step >>= next) (other >>= next') where
  sinks := fun state here misses => (first.sinks state here misses).bind
    fun value final misses => (second value value (refl value)).sinks final trivial misses
  meets := fun state state' here tied => (first.meets state state' here tied).bind
    (fun value final misses => (second value value (refl value)).sinks final trivial misses)
    (fun value value' final final' values tied => (second value value' values).meets final final' trivial tied)

theorem FollowsOn.seq (first : mending.FollowsOn on before middle (fun _ _ => True) step other)
    (second : ∀ value value', mending.Follows middle after same (next value) (next' value')) :
    mending.FollowsOn on before after same (step >>= next) (other >>= next') :=
  first.bind (fun _ => trivial) fun value value' _ => second value value'

end

theorem FollowsOn.mono {weaker : TokenKind → Prop} {step other : Step α}
    (follows : mending.FollowsOn weaker before after same step other) (weaken : ∀ kind, on kind → weaker kind) :
    mending.FollowsOn on before after same step other where
  sinks := fun state here => follows.sinks state (weaken _ here)
  meets := fun state state' here => follows.meets state state' (weaken _ here)

theorem Follows.anywhere {step other : Step α} (follows : mending.Follows before after same step other) :
    mending.FollowsOn on before after same step other :=
  FollowsOn.mono follows fun _ _ => trivial

theorem FollowsOn.imp {weaker : α → α → Prop} {step other : Step α}
    (follows : mending.FollowsOn on before after same step other)
    (weaken : ∀ value value', same value value' → weaker value value') :
    mending.FollowsOn on before after weaker step other where
  sinks := follows.sinks
  meets := by
    intro state state' here tied
    have met := follows.meets state state' here tied
    unfold Meets at met ⊢
    cases ran : step state with
    | accept =>
      rw [ran] at met
      refine met.imp_right ?_
      rintro ⟨value', final', ran', values, tied⟩
      exact ⟨value', final', ran', weaken _ _ values, tied⟩
    | reject =>
      rw [ran] at met
      exact met
    | exhausted => trivial

theorem Follows.pure {value value' : α} (values : same value value') :
    mending.Follows before before same (Pure.pure value) (Pure.pure value') where
  sinks := fun _ _ misses => misses
  meets := fun _ state' _ tied => .inr ⟨value', state', rfl, values, tied⟩

theorem FollowsOn.finish {step other : Step β} {give give' : β → α}
    (first : mending.FollowsOn on before after (fun _ _ => True) step other) :
    mending.FollowsOn on before after (fun _ _ => True) (step >>= fun value => Pure.pure (give value))
      (other >>= fun value => Pure.pure (give' value)) :=
  first.seq fun _ _ => .pure trivial

/-- A step that starts with a token of its own cannot start at the mark without missing the report. -/
theorem FollowsOn.fresh {step other : Step α} (follows : mending.FollowsOn on .outer after same step other) :
    mending.FollowsOn on .inner after same step other where
  sinks := fun state here misses => follows.sinks state here (Misses.faded misses)
  meets := by
    intro state state' here tied
    rcases Tied.faded_or_outer tied with faded | tied
    · exact .of_sinks (follows.sinks state here faded) _ _
    · exact follows.meets state state' here tied

theorem Sinks.settle {step : Step α} (sinks : mending.Sinks .inner step state) : mending.Sinks .outer step state := by
  unfold Sinks at sinks ⊢
  cases ran : step state with
  | accept =>
    rw [ran] at sinks
    exact Misses.faded sinks
  | reject =>
    rw [ran] at sinks
    exact sinks
  | exhausted => trivial

theorem Meets.settle {step other : Step α} (met : mending.Meets .inner same step other state state') :
    mending.Meets .outer same step other state state' := by
  unfold Meets at met ⊢
  cases ran : step state with
  | accept =>
    rw [ran] at met
    rcases met with misses | ⟨value', final', ran', values, tied⟩
    · exact .inl (Misses.faded misses)
    · rcases Tied.faded_or_outer tied with faded | tied
      · exact .inl faded
      · exact .inr ⟨value', final', ran', values, tied⟩
  | reject =>
    rw [ran] at met
    exact met
  | exhausted => trivial

theorem FollowsOn.settle {step other : Step α} (follows : mending.FollowsOn on before .inner same step other) :
    mending.FollowsOn on before .outer same step other where
  sinks := fun state here misses => (follows.sinks state here misses).settle
  meets := fun state state' here tied => (follows.meets state state' here tied).settle

theorem Follows.exhausted (other : Step α) : mending.Follows before after same Step.exhausted other where
  sinks := fun _ _ _ => trivial
  meets := fun _ _ _ _ => trivial

theorem Follows.look {next next' : Token → Step α} (follows : ∀ token token' : Token, token.kind = token'.kind →
      mending.FollowsOn (· = token.kind) .outer after same (next token) (next' token')) :
    mending.Follows .outer after same (current >>= next) (current >>= next') where
  sinks := fun state _ misses => (follows state.current state.current rfl).sinks state rfl misses
  meets := by
    intro state state' _ tied
    have kind : state.current.kind = state'.current.kind := Tied.kind_current tied
    exact (follows state.current state'.current kind).meets state state' rfl tied

end Rules

end Mending

end SysYTools.Parser
