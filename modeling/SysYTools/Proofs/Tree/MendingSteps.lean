import SysYTools.Proofs.Tree.Mending

/-!
The steps that look at tokens, take one, close a bracket, end an item or skip one, in two runs of which the
second finds a mark that the first one misses. At the mark the first run may only close what is open:
whatever takes a token there, or looks for one that the mark is not, makes it miss the report.
-/

namespace SysYTools.Parser.Mending

open List

variable {kind : TokenKind} {other state : State} {problem : String → Problem}

variable {mending : Mending}

/-! ## Steps that look at tokens or take one -/

section Tokens

variable {α β : Type} {before middle after : Level} {same : α → α → Prop}

theorem Past.advance {state other : State} (past : mending.Past state other)
    (plain : state.current.kind ≠ .endOfInput) : mending.Past state.advance other.advance := by
  obtain ⟨closed, -, -, reports⟩ := past.closed.advance plain
  obtain ⟨tokens, reports'⟩ := kinds_advance past.closed plain past.tokens
  refine ⟨closed, tokens, ?_, ?_⟩
  · have codes := past.codes
    rw [State.codes, State.codes] at codes ⊢
    rw [reports, reports', codes]
  · rw [reports]
    exact past.given

theorem Tied.advance {state other : State} (tied : mending.Tied .outer state other)
    (plain : state.current.kind ≠ .endOfInput) : mending.Tied .inner state.advance other.advance := by
  rcases tied with before | past
  · exact before.advance
  · exact .inr (.inr (.inr (past.advance plain)))

theorem take_follows :
    mending.FollowsOn (· ≠ .endOfInput) .outer .inner (fun token token' => token.kind = token'.kind) take take where
  sinks := fun _ plain faded => Faded.advance faded plain
  meets := by
    intro state state' plain tied
    exact .inr ⟨_, _, rfl, Tied.kind_current tied, Tied.advance tied plain⟩

theorem Before.report {state other : State} (before : mending.Before state other)
    {problem problem' : Problem} {span : Span} (span' : Span) (codes : problem.code = problem'.code)
    (unlike : { problem, span : Report } ≠ mending.target) :
    mending.Lost (state.report problem span) ∨
      mending.Before (state.report problem span) (other.report problem' span') := by
  rcases Nat.lt_or_eq_of_le before.early with less | last
  · refine .inr ⟨before.closed.report _ _, before.split, ?_, by simp; omega, before.behind⟩
    rw [State.codes_report, State.codes_report, before.codes, codes]
  · refine .inl (lost_of_index (before.closed.report _ _) (by simp; omega) ?_)
    simp only [State.report, ← last, getElem?_concat_length]
    simpa using unlike

theorem Past.report {state other : State} (past : mending.Past state other) {problem problem' : Problem}
    (span span' : Span) (codes : problem.code = problem'.code) :
    mending.Past (state.report problem span) (other.report problem' span') := by
  refine ⟨past.closed.report _ _, past.tokens, ?_, Nat.lt_succ_of_lt past.given |>.trans_eq (by simp)⟩
  rw [State.codes_report, State.codes_report, past.codes, codes, eraseIdx_append_of_lt_length]
  rw [State.length_codes]
  exact past.given

theorem Tied.report {state other : State} (tied : mending.Tied .outer state other)
    {problem : Problem} {span : Span} (unlike : { problem, span : Report } ≠ mending.target)
    (problem' : Problem) (span' : Span) (codes : problem.code = problem'.code) :
    mending.Faded (state.report problem span) ∨
      mending.Tied .outer (state.report problem span) (other.report problem' span') := by
  rcases tied with before | past
  · rcases before.report span' codes unlike with lost | before
    · exact .inl lost.toFaded
    · exact .inr (.inl before)
  · exact .inr (.inr (past.report span span' codes))

theorem ne_target_of_not_mends {problem : Problem} (other : ∀ kind, ¬ Mends kind problem) (span : Span) :
    { problem, span : Report } ≠ mending.target := by
  intro same
  apply other mending.mark.kind
  have fits := mending.fits
  rw [← same] at fits
  exact fits

theorem fail_follows {problem problem' : Problem} {span span' : Span} (codes : problem.code = problem'.code)
    (other : ∀ kind, ¬ Mends kind problem) :
    mending.Follows before after same (fail problem span) (fail problem' span') where
  sinks := fun _ _ misses => (Misses.faded misses).report (ne_target_of_not_mends other span)
  meets := by
    intro state state' _ tied
    have unlike : { problem, span : Report } ≠ mending.target := ne_target_of_not_mends other span
    rcases Tied.faded_or_outer tied with faded | tied
    · exact .inl (faded.report unlike)
    · rcases tied.report unlike problem' span' codes with faded | tied
      · exact .inl faded
      · exact .inr ⟨_, rfl, tied⟩

theorem expect_follows (plain : kind ≠ .endOfInput) (expectation : Expectation) :
    mending.Follows .outer .inner (fun token token' => token.kind = token'.kind)
      (expect kind expectation) (expect kind expectation) := by
  refine .look ?_
  intro token token' kinds
  rw [← kinds]
  by_cases found : token.kind = kind
  · rw [if_pos found, if_pos found]
    exact take_follows.mono fun here same => by rw [same, found]; exact plain
  · rw [if_neg found, if_neg found]
    exact Follows.anywhere (fail_follows rfl (by intro kind mends; cases mends))

theorem openParen_follows (keyword : String) :
    mending.Keeps .outer .outer (openParen keyword) (openParen keyword) := by
  refine .look ?_
  intro token token' kinds
  rw [← kinds]
  by_cases found : token.kind = .leftParen
  · rw [if_pos found, if_pos found]
    refine FollowsOn.settle (FollowsOn.bind (take_follows.mono ?_) (fun _ => rfl) ?_)
    · intro kind same
      rw [same, found]
      decide
    · exact fun _ _ _ => .pure trivial
  · rw [if_neg found, if_neg found]
    refine Follows.anywhere ⟨?_, ?_⟩
    · intro state _ misses
      exact Faded.report misses (ne_target_of_not_mends (by intro kind mends; cases mends) _)
    · intro state state' _ tied
      have unlike : { problem := .missingBracket '(' keyword, span := token.span : Report } ≠ mending.target :=
        ne_target_of_not_mends (by intro kind mends; cases mends) _
      rcases Tied.report tied unlike _ token'.span rfl with faded | tied
      · exact .inl faded
      · exact .inr ⟨(), _, rfl, trivial, tied⟩

theorem baseType_follows : mending.Keeps .outer .inner baseType baseType := by
  refine .look ?_
  intro token token' kinds
  rw [← kinds]
  cases found : BaseType.ofKind? token.kind with
  | none => exact Follows.anywhere (fail_follows rfl (by intro kind mends; cases mends))
  | some =>
    refine FollowsOn.bind (take_follows.mono ?_) (fun _ => rfl) (fun _ _ _ => .pure trivial)
    intro kind same stop
    rw [← same, stop] at found
    cases found

/-! ### Closing marks -/

theorem close_of_found (found : state.current.kind = kind) :
    close kind problem state = .accept state.current.span state.advance := by
  simp [close, found]

theorem close_of_missing (missing : state.current.kind ≠ kind) :
    close kind problem state = .accept state.last.span (state.report (problem state.last.value) state.last.span) := by
  simp [close, missing]

theorem close_sinks (plain : kind ≠ .endOfInput) (problem : String → Problem) (lost : mending.Lost state) :
    mending.Sinks .inner (close kind problem) state := by
  unfold Sinks
  by_cases found : state.current.kind = kind
  · rw [close_of_found found]
    exact lost.toFaded.advance (found ▸ plain)
  · rw [close_of_missing found]
    exact lost.report _

theorem close_meets (plain : kind ≠ .endOfInput) (problem : String → Problem) {code : Code}
    (codes : ∀ after, (problem after).code = code)
    (tied : (mending.Before state other ∧ state.previous ≠ none) ∨ mending.Past state other) :
    mending.Meets .inner (fun _ _ => True) (close kind problem) (close kind problem) state other := by
  unfold Meets
  have kinds : state.current.kind = other.current.kind :=
    tied.elim (fun before => before.1.kind_current) (fun past => kind_current_of_kinds past.tokens)
  by_cases found : state.current.kind = kind
  · rw [close_of_found found, close_of_found (kinds ▸ found)]
    refine .inr ⟨_, _, rfl, trivial, ?_⟩
    rcases tied with ⟨before, -⟩ | past
    · exact before.advance
    · exact .inr (.inr (.inr (past.advance (found ▸ plain))))
  · rw [close_of_missing found, close_of_missing (kinds ▸ found)]
    have same : (problem state.last.value).code = (problem other.last.value).code := by rw [codes, codes]
    rcases tied with ⟨before, taken⟩ | past
    · obtain ⟨token, previous⟩ := Option.ne_none_iff_exists'.mp taken
      have unlike : { problem := problem state.last.value, span := state.last.span : Report } ≠
          mending.target := by
        intro equal
        apply before.behind token previous
        rw [← equal]
        simp [State.last, previous]
      rcases before.report other.last.span same unlike with lost | before
      · exact .inl lost
      · exact .inr ⟨_, _, rfl, trivial, .inl ⟨before, taken⟩⟩
    · exact .inr ⟨_, _, rfl, trivial, .inr (.inr (.inr (past.report _ _ same)))⟩

theorem report_cases {state : State} (closed : state.Closed) (early : state.reports.length ≤ mending.index)
    (problem : Problem) (span : Span) :
    state.reports.length + 1 ≤ mending.index ∨
      (state.reports.length = mending.index ∧ { problem, span : Report } = mending.target) ∨
      mending.Lost (state.report problem span) := by
  rcases Nat.lt_or_eq_of_le early with less | last
  · exact .inl less
  · by_cases same : { problem, span : Report } = mending.target
    · exact .inr (.inl ⟨last, same⟩)
    · refine .inr (.inr (lost_of_index (closed.report _ _) (by simp; omega) ?_))
      simp only [State.report, ← last, getElem?_concat_length]
      simpa using same

theorem Past.of_report {state other : State} (closed : state.Closed)
    (tokens : kinds state.tokens = kinds other.tokens) (last : state.reports.length = mending.index)
    (codes : other.codes = state.codes) (problem : Problem) (span : Span) :
    mending.Past (state.report problem span) other := by
  refine ⟨closed.report _ _, tokens, ?_, by simp; omega⟩
  rw [State.codes_report, ← last, ← State.length_codes,
    eraseIdx_append_of_length_le (Nat.le_refl _), Nat.sub_self, codes]
  simp

theorem Gap.taken (gap : mending.Gap state other) :
    kinds state.tokens = kinds other.advance.tokens ∧ other.advance.codes = state.codes := by
  obtain ⟨back, tokens, same⟩ := gap.split
  have some : back ≠ [] := by
    rintro rfl
    simp [kinds, State.tokens] at same
  obtain ⟨left, -, reports⟩ := State.advance_of_tokens tokens some
  have codes := gap.codes
  rw [State.codes, State.codes] at codes
  exact ⟨by rw [left, same], by rw [State.codes, State.codes, reports, codes]⟩

theorem Gap.current {state other : State} (gap : mending.Gap state other) : other.current = mending.mark := by
  obtain ⟨_, tokens, -⟩ := gap.split
  exact (List.cons.inj tokens).1

theorem closeBracket_follows (plain : kind ≠ .endOfInput) (bracket : kind ≠ .semicolon)
    (codes : ∀ after, (problem after).code = .unmatchedBrackets)
    (only : mending.mark.kind ≠ kind → ∀ after span, { problem := problem after, span : Report } ≠ mending.target) :
    mending.Keeps .inner .inner (close kind problem) (close kind problem) where
  sinks := fun _ _ lost => close_sinks plain problem lost
  meets := by
    intro state other _ tied
    have cases := fun closed early => @report_cases mending state closed early (problem state.last.value)
      state.last.span
    rcases tied with before | gap | late | past
    · exact close_meets plain problem codes (.inl before)
    · unfold Meets
      by_cases found : state.current.kind = kind
      · rw [close_of_found found]
        exact .inl (gap.faded.advance (found ▸ plain))
      rw [close_of_missing found]
      by_cases fits : mending.mark.kind = kind
      · -- the second run takes the mark
        rw [close_of_found (gap.current ▸ fits)]
        obtain ⟨tokens, left⟩ := gap.taken
        have code := mending.fits.code_of_ne (fits ▸ bracket)
        rcases cases gap.closed gap.early with less | ⟨last, -⟩ | lost
        · refine .inr ⟨_, _, rfl, trivial, .inr (.inr (.inl
            ⟨gap.closed.report _ _, tokens, code, ?_, by simpa using less, gap.clear⟩))⟩
          rw [State.codes_report, left, codes, code]
        · exact .inr ⟨_, _, rfl, trivial, .inr (.inr (.inr (.of_report gap.closed tokens last left _ _)))⟩
        · exact .inl lost
      · rw [close_of_missing (gap.current ▸ fits)]
        rcases cases gap.closed gap.early with less | ⟨-, same⟩ | lost
        · refine .inr ⟨_, _, rfl, trivial, .inr (.inl
            ⟨gap.closed.report _ _, gap.split, ?_, by simpa using less, gap.clear⟩)⟩
          rw [State.codes_report, State.codes_report, gap.codes, codes, codes]
        · exact absurd same (only fits _ _)
        · exact .inl lost
    · unfold Meets
      by_cases found : state.current.kind = kind
      · rw [close_of_found found]
        exact .inl (late.faded.advance (found ▸ plain))
      rw [close_of_missing found, close_of_missing (kind_current_of_kinds late.tokens ▸ found)]
      -- both runs report, and the codes of the second one catch up with those of the first
      have left : (other.report (problem other.last.value) other.last.span).codes = state.codes := by
        rw [State.codes_report, late.codes, late.bracket, codes]
      rcases cases late.closed late.early with less | ⟨last, -⟩ | lost
      · refine .inr ⟨_, _, rfl, trivial, .inr (.inr (.inl
          ⟨late.closed.report _ _, late.tokens, late.bracket, ?_, by simpa using less, late.clear⟩))⟩
        rw [State.codes_report, left, codes, late.bracket]
      · have past := @Past.of_report mending state (other.report _ _) late.closed late.tokens last left
          (problem state.last.value) state.last.span
        exact .inr ⟨_, _, rfl, trivial, .inr (.inr (.inr past))⟩
      · exact .inl lost
    · exact close_meets plain problem codes (.inr past)

theorem Faded.of_early (closed : state.Closed) (clear : mending.Clear state.tokens)
    (early : state.reports.length + 1 ≤ mending.index) (problem : Problem) (span : Span) :
    mending.Faded (state.report problem span) := by
  refine ⟨closed.report _ _, ?_, .inr clear⟩
  rw [getElem?_eq_none (by simpa using early)]
  simp

theorem semicolon_follows : mending.Keeps .inner .outer semicolon semicolon where
  sinks := fun _ _ lost => (close_sinks (show TokenKind.semicolon ≠ _ by decide) _ lost).settle
  meets := by
    intro state other _ tied
    have cases := fun closed early => @report_cases mending state closed early
      (.missingSemicolon state.last.value) state.last.span
    rcases tied with before | gap | late | past
    · exact (close_meets (by decide) .missingSemicolon (fun _ => rfl) (.inl before)).settle
    · unfold Meets semicolon
      by_cases found : state.current.kind = .semicolon
      · rw [close_of_found found]
        exact .inl (gap.faded.advance (found ▸ by decide)).toFaded
      rw [close_of_missing found]
      rcases cases gap.closed gap.early with less | ⟨last, same⟩ | lost
      · exact .inl (.of_early gap.closed gap.clear less _ _)
      · have fits := mending.fits
        rw [← same] at fits
        have isMark : mending.mark.kind = .semicolon := fits.kind_unique .semicolon
        rw [close_of_found (gap.current ▸ isMark)]
        obtain ⟨tokens, left⟩ := gap.taken
        exact .inr ⟨_, _, rfl, trivial, .inr (.of_report gap.closed tokens last left _ _)⟩
      · exact .inl lost.toFaded
    · unfold Meets semicolon
      by_cases found : state.current.kind = .semicolon
      · rw [close_of_found found]
        exact .inl (late.faded.advance (found ▸ by decide)).toFaded
      rw [close_of_missing found]
      rcases cases late.closed late.early with less | ⟨-, same⟩ | lost
      · exact .inl (.of_early late.closed late.clear less _ _)
      · have bracket := late.bracket
        rw [← same] at bracket
        cases bracket
      · exact .inl lost.toFaded
    · exact (close_meets (by decide) .missingSemicolon (fun _ => rfl) (.inr past)).settle

theorem closeParen_follows : mending.Keeps .inner .inner closeParen closeParen := by
  refine closeBracket_follows (by decide) (by decide) (fun _ => rfl) ?_
  intro other after span same
  have fits := mending.fits
  rw [← same] at fits
  exact other (fits.kind_unique .paren)

theorem closeSquare_follows : mending.Keeps .inner .inner closeBracket closeBracket := by
  refine closeBracket_follows (by decide) (by decide) (fun _ => rfl) ?_
  intro other after span same
  have fits := mending.fits
  rw [← same] at fits
  exact other (fits.kind_unique .bracket)

theorem closeBrace_ne_target (after : String) (span : Span) :
    { problem := .missingBracket '\x7d' after, span : Report } ≠ mending.target :=
  ne_target_of_not_mends (by intro kind mends; cases mends) span

theorem closeBrace_follows : mending.Keeps .inner .inner closeBrace closeBrace :=
  closeBracket_follows (by decide) (by decide) (fun _ => rfl) fun _ => closeBrace_ne_target

theorem closeBlock_follows : mending.Keeps .outer .outer closeBrace closeBrace where
  sinks := by
    intro state _ faded
    unfold Sinks closeBrace
    by_cases found : state.current.kind = .rightBrace
    · rw [close_of_found found]
      exact (Faded.advance faded (found ▸ by decide)).toFaded
    · rw [close_of_missing found]
      exact Faded.report faded (closeBrace_ne_target _ _)
  meets := by
    intro state other _ tied
    unfold Meets closeBrace
    have kinds := Tied.kind_current tied
    by_cases found : state.current.kind = .rightBrace
    · rw [close_of_found found, close_of_found (kinds ▸ found)]
      rcases Tied.faded_or_outer (Tied.advance tied (found ▸ by decide)) with faded | tied
      · exact .inl faded
      · exact .inr ⟨_, _, rfl, trivial, tied⟩
    · rw [close_of_missing found, close_of_missing (kinds ▸ found)]
      have unlike := @closeBrace_ne_target mending state.last.value state.last.span
      rcases Tied.report tied unlike (.missingBracket '\x7d' other.last.value) other.last.span rfl with
        faded | tied
      · exact .inl faded
      · exact .inr ⟨_, _, rfl, trivial, tied⟩

theorem FollowsOn.takes (plain : kind ≠ .endOfInput) {next next' : Token → Step α}
    (rest : ∀ token token', token.kind = token'.kind → mending.Follows .inner after same (next token) (next' token')) :
    
    mending.FollowsOn (· = kind) .outer after same (take >>= next) (take >>= next') :=
  FollowsOn.bind (take_follows.mono fun _ here => here ▸ plain) (fun _ => rfl) rest

theorem Follows.lookInner {next next' : TokenKind → Step α} {rest rest' : Step α}
    (choice : ∀ kind, mending.FollowsOn (· = kind) .outer after same (next kind) (next' kind) ∨
      (next kind = rest ∧ next' kind = rest'))
    (atMark : next' mending.mark.kind = rest') (left : mending.Follows .inner after same rest rest') :
    mending.Follows .inner after same (current >>= fun token => next token.kind)
      (current >>= fun token => next' token.kind) := by
  have run : ∀ (next : TokenKind → Step α) (state : State),
      (current >>= fun token => next token.kind) state = next state.current.kind state := fun _ _ => rfl
  constructor
  · intro state _ lost
    unfold Sinks
    rw [run]
    rcases choice state.current.kind with takes | ⟨waits, -⟩
    · exact takes.sinks state rfl (Misses.faded lost)
    · rw [waits]
      exact left.sinks state trivial lost
  · intro state state' _ tied
    rcases choice state.current.kind with takes | ⟨waits, waits'⟩
    · rcases Tied.faded_or_outer tied with faded | tied
      · -- a token that is taken at the mark takes the first run past the report
        have sunk : mending.Sinks after (current >>= fun token => next token.kind) state := by
          unfold Sinks
          rw [run]
          exact takes.sinks state rfl faded
        exact .of_sinks sunk _ _
      · unfold Meets
        rw [run, run, ← Tied.kind_current tied]
        exact takes.meets state state' rfl tied
    · have other : next' state'.current.kind = rest' := by
        rcases tied with ⟨before, -⟩ | gap | late | past
        · rw [← before.kind_current, waits']
        · rw [gap.current, atMark]
        · rw [← kind_current_of_kinds late.tokens, waits']
        · rw [← kind_current_of_kinds past.tokens, waits']
      unfold Meets
      rw [run, run, waits, other]
      exact left.meets state state' trivial tied

theorem Follows.ifTake {next next' : Token → Step α} {rest rest' : Step α} (plain : kind ≠ .endOfInput)
    (other : mending.mark.kind ≠ kind)
    (taken : ∀ token token', token.kind = token'.kind → mending.Follows .inner after same (next token) (next' token'))
    (left : mending.Follows .inner after same rest rest') :
    mending.Follows .inner after same
      (sees kind >>= fun found => if found = true then take >>= next else rest)
      (sees kind >>= fun found => if found = true then take >>= next' else rest') := by
  refine @Follows.lookInner mending α after same
    (fun here => if (here == kind) = true then take >>= next else rest)
    (fun here => if (here == kind) = true then take >>= next' else rest') rest rest' ?_ ?_ left
  · intro here
    by_cases found : here = kind
    · subst found
      simp only [beq_self_eq_true, if_true]
      exact .inl (.takes plain taken)
    · exact .inr (by simp [found])
  · simp [other]

theorem FollowsOn.sees {on : TokenKind → Prop} {kind : TokenKind} {next next' : Bool → Step α}
    (yes : mending.FollowsOn (· = kind) .outer after same (next true) (next' true))
    (no : mending.FollowsOn (fun here => on here ∧ here ≠ kind) .outer after same (next false) (next' false)) :
    mending.FollowsOn on .outer after same (Parser.sees kind >>= next) (Parser.sees kind >>= next') := by
  have run : ∀ (next : Bool → Step α) (state : State),
      (Parser.sees kind >>= next) state = next (state.current.kind == kind) state := fun _ _ => rfl
  constructor
  · intro state on faded
    unfold Sinks
    rw [run]
    by_cases here : state.current.kind = kind
    · rw [beq_iff_eq.mpr here]
      exact yes.sinks state here faded
    · rw [beq_eq_false_iff_ne.mpr here]
      exact no.sinks state ⟨on, here⟩ faded
  · intro state state' on tied
    unfold Meets
    rw [run, run, ← Tied.kind_current tied]
    by_cases here : state.current.kind = kind
    · rw [beq_iff_eq.mpr here]
      exact yes.meets state state' here tied
    · rw [beq_eq_false_iff_ne.mpr here]
      exact no.meets state state' ⟨on, here⟩ tied

theorem Follows.seesOuter {found found' missing missing' : Step α}
    (yes : mending.FollowsOn (· = kind) .outer after same found found')
    (no : mending.Follows .outer after same missing missing') :
    mending.Follows .outer after same
      (sees kind >>= fun seen => if seen = true then found else missing)
      (sees kind >>= fun seen => if seen = true then found' else missing') := by
  refine FollowsOn.sees ?_ ?_
  · simpa only [if_true] using yes
  · simpa only [Bool.false_eq_true, if_false] using no.anywhere

theorem close_follows_found (plain : kind ≠ .endOfInput) (problem : String → Problem) (level : Level) :
    mending.FollowsOn (· = kind) .outer level (fun _ _ => True) (close kind problem) (close kind problem) := by
  have follows : mending.FollowsOn (· = kind) .outer .inner (fun _ _ => True) (close kind problem)
      (close kind problem) := by
    constructor
    · intro state found faded
      unfold Sinks
      rw [close_of_found found]
      exact Faded.advance faded (found ▸ plain)
    · intro state state' found tied
      unfold Meets
      rw [close_of_found found, close_of_found (Tied.kind_current tied ▸ found)]
      exact .inr ⟨_, _, rfl, trivial, Tied.advance tied (found ▸ plain)⟩
  cases level with
  | inner => exact follows
  | outer => exact follows.settle

theorem Follows.between (plain : kind ≠ .endOfInput) {list list' : Step β} {empty : β} {next next' : β → Span → Step α}
    (closes : mending.Keeps .inner middle (close kind problem) (close kind problem))
    (inside : mending.Keeps .outer .inner list list')
    (rest : ∀ value value' stop stop', mending.Follows middle after same (next value stop) (next' value' stop')) :
    mending.Follows .outer after same
      (sees kind >>= fun seen =>
        if seen = true then Pure.pure empty >>= fun value => close kind problem >>= next value
        else list >>= fun value => close kind problem >>= next value) (sees kind >>= fun seen =>
        if seen = true then Pure.pure empty >>= fun value => close kind problem >>= next' value
        else list' >>= fun value => close kind problem >>= next' value) := by
  have ends : ∀ value value', mending.Follows .inner after same (close kind problem >>= next value)
      (close kind problem >>= next' value') :=
    fun value value' => FollowsOn.seq closes fun stop stop' => rest value value' stop stop'
  refine .seesOuter ?_ ?_
  · change mending.FollowsOn _ _ _ _ (close kind problem >>= next empty) (close kind problem >>= next' empty)
    exact FollowsOn.seq (close_follows_found plain problem middle)
      fun stop stop' => rest empty empty stop stop'
  · exact FollowsOn.seq inside fun value value' => ends value value'

theorem mark_kind_ne (semicolon : kind ≠ .semicolon) (paren : kind ≠ .rightParen) (bracket : kind ≠ .rightBracket) :
    mending.mark.kind ≠ kind := by
  rcases mending.fits.kind_cases with isMark | isMark | isMark
  · exact isMark ▸ semicolon.symm
  · exact isMark ▸ paren.symm
  · exact isMark ▸ bracket.symm

theorem Follows.separated {part part' : Step β} {rest rest' : Step (List β)} {related : β → β → Prop}
    (refl : ∀ value, related value value) (first : mending.Follows .outer .inner related part part')
    (more : mending.Keeps .outer .inner rest rest') :
    mending.Keeps .outer .inner (part.separated rest) (part'.separated rest') := by
  refine FollowsOn.bind first refl ?_
  intro value value' _
  refine .ifTake (by decide) (mark_kind_ne (by decide) (by decide) (by decide)) ?_ (.pure trivial)
  exact fun _ _ _ => FollowsOn.finish more.fresh

end Tokens

/-! ## Going on after a rejected item -/

section Items

variable {α β : Type} {on : TokenKind → Prop} {same : α → α → Prop}

theorem skipItem_eq (outside : Bool) (ends : state.rest = [] → state.current.kind = .endOfInput) :
    state.skipItem outside =
      match state.current.kind with
      | .endOfInput => state
      | .semicolon => state.advance
      | .rightBrace => if outside then state.advance else state
      | _ => state.advance.skipItem outside := by
  unfold State.skipItem
  cases rest : state.rest with
  | nil =>
    rw [ends rest]
    rfl
  | cons _ more =>
    have left : state.advance.rest = more := by simp [State.advance, rest]
    rw [left]
    rfl

theorem Faded.skipItem {state : State} (faded : mending.Faded state) (outside : Bool) :
    mending.Faded (state.skipItem outside) := by
  obtain ⟨_, reached, reports, -⟩ := skipItem_reaches outside faded.closed
  refine ⟨reached.closed faded.closed, ?_, ?_⟩
  · rw [reports]
    exact faded.differs
  · rw [reports]
    refine faded.gone.imp_right fun clear token member => clear token ?_
    rw [reached.tokens]
    exact mem_append_right _ member

theorem Tied.skipItem {state other : State} (tied : mending.Tied .outer state other) (outside : Bool) :
    mending.Faded (state.skipItem outside) ∨
      mending.Tied .outer (state.skipItem outside) (other.skipItem outside) := by
  induction size : state.rest.length using Nat.strong_induction_on generalizing state other with
  | _ size ih =>
  have kinds := Tied.kind_current tied
  have closed : state.Closed := tied.elim Before.closed Past.closed
  have ends : state.rest = [] → state.current.kind = .endOfInput := by
    intro none
    by_contra plain
    have shorter := (State.reaches_advance closed plain).length
    rw [none] at shorter
    simp at shorter
    omega
  have ends' : other.rest = [] → other.current.kind = .endOfInput := by
    intro none
    rw [← kinds]
    apply ends
    rcases tied with before | past
    · obtain ⟨front, _, front', _, some, -, -, tokens, same, -, -⟩ := before.split
      have sizes := congrArg List.length tokens
      have some' : front'.length = front.length := by simpa [Parser.kinds] using (congrArg List.length same).symm
      have positive := length_pos_iff.mpr some
      simp [State.tokens, none] at sizes
      omega
    · have sizes := congrArg List.length past.tokens
      simpa [Parser.kinds, State.tokens, none] using sizes
  have advanced : state.current.kind ≠ .endOfInput → mending.Faded state.advance ∨
      mending.Tied .outer state.advance other.advance := fun plain =>
    Tied.faded_or_outer (Tied.advance tied plain)
  rw [skipItem_eq outside ends, skipItem_eq outside ends', ← kinds]
  split
  · exact .inr tied
  next found => exact advanced (by simp [found])
  next found =>
    cases outside with
    | true => exact advanced (by simp [found])
    | false => exact .inr tied
  next plain _ _ =>
    rcases advanced plain with faded | tied
    · exact .inl (faded.skipItem outside)
    · have shorter := (State.reaches_advance closed plain).length
      simp only [length_singleton] at shorter
      exact ih _ (by omega) tied rfl

theorem skipItem_follows (outside : Bool) : mending.Keeps .outer .outer (skipItem outside) (skipItem outside) where
  sinks := fun _ _ faded => Faded.skipItem faded outside
  meets := by
    intro state other _ tied
    rcases Tied.skipItem tied outside with faded | tied
    · exact .inl faded
    · exact .inr ⟨(), _, rfl, trivial, tied⟩

theorem FollowsOn.attempt {step other : Step α} (item : mending.FollowsOn on .outer .outer same step other) :
    mending.FollowsOn on .outer .outer (fun value value' => value.isSome = value'.isSome)
      step.attempt other.attempt where
  sinks := by
    intro state here faded
    have sunk := item.sinks state here faded
    unfold Sinks at sunk ⊢
    rw [Step.attempt]
    cases ran : step state with
    | accept | reject =>
      rw [ran] at sunk
      exact sunk
    | exhausted => trivial
  meets := by
    intro state state' here tied
    have met := item.meets state state' here tied
    unfold Meets at met ⊢
    rw [Step.attempt, Step.attempt]
    cases ran : step state with
    | accept =>
      rw [ran] at met
      rcases met with faded | ⟨value', final', ran', -, tied⟩
      · exact .inl faded
      · exact .inr ⟨some value', final', by rw [ran'], rfl, tied⟩
    | reject =>
      rw [ran] at met
      rcases met with faded | ⟨final', ran', tied⟩
      · exact .inl faded
      · exact .inr ⟨none, final', by rw [ran'], rfl, tied⟩
    | exhausted => trivial

end Items

end SysYTools.Parser.Mending
