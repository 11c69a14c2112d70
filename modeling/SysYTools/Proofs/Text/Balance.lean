import Mathlib
import SysYTools.Text.Bracket

/-!
The search for the partner of a bracket in raw text. What is read of the text has an outline, the word of its brackets
that stand in no comment. The search finds the first place where this word pairs up. It finds none where a bracket of
the wrong kind stands before that place, or where the text has no such place.
-/

namespace SysYTools.Text

open List

variable {after awaited body inside left more read rest right text : Text} {c d : Char}
  {stack stack' word : List Char}

def isBracket (c : Char) : Bool := isOpeningBracket c || isClosingBracket c

/-- Words of brackets that pair up. -/
inductive Paired : List Char → Prop where
  | nil : Paired []
  | group {c d : Char} {inside rest : List Char} :
      closingBracket? c = some d → Paired inside → Paired rest → Paired (c :: inside ++ d :: rest)

/-- Words in which some brackets are open, the first one among them. Their partners are awaited, the last one first. -/
inductive Pending : List Char → List Char → Prop where
  | nil : Pending [] []
  | opened {c d : Char} {awaited word inside : List Char} :
      closingBracket? c = some d → Paired inside → Pending awaited word →
      Pending (d :: awaited) (word ++ c :: inside)

/-- A text in front of a rest, and its brackets outside of comments. A line comment goes up to the line feed, and a
block comment up to the first mark that closes it, or to the end of the text if there is none. -/
inductive Outline : Text → List Char → Text → Prop where
  | nil {rest : Text} : Outline [] [] rest
  | bracket {c : Char} {read rest : Text} {word : List Char} :
      isBracket c = true → Outline read word rest → Outline (c :: read) (c :: word) rest
  | other {c : Char} {read rest : Text} {word : List Char} :
      isBracket c = false → startsWithComment (c :: (read ++ rest)) = false → Outline read word rest →
      Outline (c :: read) word rest
  | line {body read rest : Text} {word : List Char} :
      '\n' ∉ body → read ++ rest = [] ∨ (read ++ rest).head? = some '\n' → Outline read word rest →
      Outline ('/' :: '/' :: (body ++ read)) word rest
  | block {body read rest : Text} {word : List Char} :
      ¬ ['*', '/'] <:+: body → Outline read word rest →
      Outline ('/' :: '*' :: (body ++ '*' :: '/' :: read)) word rest
  | unclosed {body : Text} : ¬ ['*', '/'] <:+: body → Outline ('/' :: '*' :: body) [] []

/-- The brackets from one place up to another pair up, and the last one closes the first one. -/
def Closes (text : Text) (start stop : Nat) : Prop :=
  ∃ read c inside d rest, text.drop start = read ++ d :: rest ∧ stop = start + read.length ∧
    Outline read (c :: inside) (d :: rest) ∧ closingBracket? c = some d ∧ Paired inside

/-- A closing bracket is met that is not the one awaited, while the bracket at the start is open. -/
def Crosses (text : Text) (start : Nat) : Prop :=
  ∃ read word found rest d awaited, text.drop start = read ++ found :: rest ∧
    Outline read word (found :: rest) ∧ Pending (d :: awaited) word ∧ isClosingBracket found = true ∧ found ≠ d

/-- The text ends while the bracket at the start is open. -/
def StaysOpen (text : Text) (start : Nat) : Prop :=
  ∃ word d awaited, Outline (text.drop start) word [] ∧ Pending (d :: awaited) word

/-! ## Words of brackets -/

theorem closing_of_partner (partner : closingBracket? c = some d) :
    closingBracket? d = none ∧ isClosingBracket d = true ∧ isOpeningBracket c = true := by
  unfold closingBracket? at partner
  split at partner <;> cases partner <;> exact ⟨rfl, rfl, rfl⟩

theorem Paired.append (first : Paired left) (second : Paired right) : Paired (left ++ right) := by
  induction first with
  | nil => exact second
  | group partner inside _ _ ih =>
    rw [append_assoc, cons_append]
    exact .group partner inside ih

/-- What a bracket makes of the awaited ones, if the search goes on after it. -/
def next? (stack : List Char) (c : Char) : Option (List Char) :=
  match bracketStep stack c with
  | .awaiting stack => some stack
  | _ => none

theorem next?_eq_some : next? stack c = some stack' ↔ bracketStep stack c = .awaiting stack' := by
  unfold next?
  split <;> simp_all

theorem next?_opening (partner : closingBracket? c = some d) : next? stack c = some (d :: stack) := by
  simp [next?, bracketStep, partner]

theorem next?_closing (partner : closingBracket? c = some d) (awaiting : stack ≠ []) :
    next? (d :: stack) d = some stack := by
  obtain ⟨unopened, closes, -⟩ := closing_of_partner partner
  simp [next?, bracketStep, unopened, closes, awaiting]

theorem Paired.foldlM_next? (paired : Paired word) (awaiting : stack ≠ []) : word.foldlM next? stack = some stack := by
  induction paired generalizing stack with
  | nil => rfl
  | group partner _ _ insideHypothesis ih =>
    rw [cons_append, foldlM_cons, next?_opening partner, Option.bind_eq_bind, Option.bind_some,
      foldlM_append, insideHypothesis (cons_ne_nil _ _), Option.bind_eq_bind, Option.bind_some,
      foldlM_cons, next?_closing partner awaiting, Option.bind_eq_bind, Option.bind_some, ih awaiting]

theorem Pending.foldlM_next? (pending : Pending awaited word) : word.foldlM next? [] = some awaited := by
  induction pending with
  | nil => rfl
  | opened partner inside _ ih =>
    rw [foldlM_append, ih, Option.bind_eq_bind, Option.bind_some, foldlM_cons, next?_opening partner,
      Option.bind_eq_bind, Option.bind_some, inside.foldlM_next? (cons_ne_nil _ _)]

theorem Pending.close (pending : Pending (d :: c :: awaited) word) : Pending (c :: awaited) (word ++ [d]) := by
  cases pending with
  | opened partner inside pending =>
    cases pending with
    | opened outer outside pending =>
      have group := Paired.group partner inside .nil
      simpa using Pending.opened outer (outside.append group) pending

/-! ## Outlines -/

theorem Outline.append (first : Outline left word (right ++ rest)) {others : List Char}
    (second : Outline right others rest) : Outline (left ++ right) (word ++ others) rest := by
  generalize behind : right ++ rest = after at first
  induction first with
  | nil => exact second
  | bracket isBracket _ ih => exact .bracket isBracket (ih behind)
  | other isOther code _ ih =>
    refine .other isOther ?_ (ih behind)
    simpa [← behind] using code
  | @line body read _ _ feedless ends _ ih =>
    have line := Outline.line feedless (by rwa [append_assoc, behind]) (ih behind)
    simpa using line
  | block unclosed _ ih =>
    have block := Outline.block unclosed (ih behind)
    simpa using block
  | unclosed unclosed =>
    obtain ⟨rfl, rfl⟩ := append_eq_nil_iff.mp behind
    cases second
    simpa using Outline.unclosed unclosed

theorem startsWithComment_of_isBracket (bracket : isBracket c = true) (text : Text) :
    startsWithComment (c :: text) = false := by
  unfold startsWithComment
  split <;> first | rfl | simp_all [isBracket, isOpeningBracket, closingBracket?, isClosingBracket]

/-- One character of the search, where no comment starts and none ends. -/
theorem closeFrom_cons (stack : List Char) (index : Nat) (c : Char) (text : Text) :
    (¬ ['*', '/'] <+: c :: text →
      closeFrom .blockComment stack index (c :: text) = closeFrom .blockComment stack (index + 1) text) ∧
    (startsWithComment (c :: text) = false →
      (∀ stack', bracketStep stack c = .awaiting stack' →
        closeFrom .code stack index (c :: text) = closeFrom .code stack' (index + 1) text) ∧
      (bracketStep stack c = .closed → closeFrom .code stack index (c :: text) = some index) ∧
      (bracketStep stack c = .crossed → closeFrom .code stack index (c :: text) = none)) := by
  refine ⟨fun inside => ?_, fun code => ⟨fun stack' step => ?_, fun step => ?_, fun step => ?_⟩⟩
  · rw [closeFrom]
    rintro rest rfl rfl
    exact inside (prefix_append ['*', '/'] rest)
  all_goals
    rw [closeFrom]
    · rw [step]
    all_goals
      rintro rest rfl rfl
      cases code

theorem closeFrom_closing (closes : isClosingBracket c = true) (index : Nat) (text : Text) :
    (bracketStep stack c = .closed → closeFrom .code stack index (c :: text) = some index) ∧
      (bracketStep stack c = .crossed → closeFrom .code stack index (c :: text) = none) :=
  ((closeFrom_cons ..).2 (startsWithComment_of_isBracket (by simp [isBracket, closes]) text)).2

theorem closeFrom_line (feedless : '\n' ∉ body) (ends : text = [] ∨ text.head? = some '\n') (stack : List Char)
    (index : Nat) :
    closeFrom .code stack index ('/' :: '/' :: (body ++ text)) =
      closeFrom .code stack (index + (body.length + 2)) text := by
  have inside : ∀ index, closeFrom .lineComment stack index (body ++ text) =
      closeFrom .lineComment stack (index + body.length) text := by
    induction body with
    | nil => exact fun _ => rfl
    | cons c body ih =>
      rw [mem_cons, not_or] at feedless
      intro index
      change closeFrom (if c = '\n' then .code else .lineComment) stack (index + 1) (body ++ text) = _
      rw [if_neg (Ne.symm feedless.1), ih feedless.2, length_cons]
      congr 1
      omega
  refine (inside (index + 2)).trans ?_
  rw [show index + 2 + body.length = index + (body.length + 2) by omega]
  cases text with
  | nil => rfl
  | cons c =>
    obtain rfl : c = '\n' := by simpa using ends
    exact (((closeFrom_cons ..).2 rfl).1 _ rfl).symm

theorem closeFrom_block (unclosed : ¬ ['*', '/'] <:+: body) (stack : List Char) (index : Nat) (text : Text) :
    closeFrom .code stack index ('/' :: '*' :: (body ++ '*' :: '/' :: text)) =
      closeFrom .code stack (index + (body.length + 4)) text := by
  have inside : ∀ index, closeFrom .blockComment stack index (body ++ '*' :: '/' :: text) =
      closeFrom .code stack (index + body.length + 2) text := by
    induction body with
    | nil => exact fun _ => rfl
    | cons c body ih =>
      intro index
      have goesOn : ¬ ['*', '/'] <+: c :: (body ++ '*' :: '/' :: text) := by
        intro starts
        obtain ⟨rfl, follows⟩ := cons_prefix_cons.mp starts
        cases body with
        | nil => cases (cons_prefix_cons.mp follows).1
        | cons d body =>
          obtain ⟨rfl, -⟩ := cons_prefix_cons.mp follows
          exact unclosed (prefix_append ['*', '/'] body).isInfix
      rw [cons_append, (closeFrom_cons ..).1 goesOn,
        ih fun within => unclosed (within.trans (suffix_cons c body).isInfix), length_cons]
      congr 1
      omega
  refine (inside (index + 2)).trans ?_
  congr 1
  omega

theorem closeFrom_unclosed (unclosed : ¬ ['*', '/'] <:+: body) (stack : List Char) (index : Nat) :
    closeFrom .blockComment stack index body = none := by
  induction body generalizing index with
  | nil => rfl
  | cons c body ih =>
    rw [(closeFrom_cons ..).1 fun starts => unclosed starts.isInfix]
    exact ih (fun within => unclosed (within.trans (suffix_cons c body).isInfix)) _

/-- The search goes over a text as over its outline. -/
theorem Outline.closeFrom_eq (outline : Outline read word rest) (run : word.foldlM next? stack = some stack')
    (index : Nat) :
    closeFrom .code stack index (read ++ rest) = closeFrom .code stack' (index + read.length) rest := by
  induction outline generalizing stack index with
  | nil =>
    cases run
    rfl
  | @bracket c read rest word isBracket _ ih =>
    rw [foldlM_cons, Option.bind_eq_bind, Option.bind_eq_some_iff] at run
    obtain ⟨_, step, run⟩ := run
    have code := startsWithComment_of_isBracket isBracket (read ++ rest)
    rw [cons_append, ((closeFrom_cons ..).2 code).1 _ (next?_eq_some.mp step), ih run, length_cons]
    congr 1
    omega
  | @other c read rest word isOther code _ ih =>
    have step : bracketStep stack c = .awaiting stack := by simp_all [Text.isBracket, isOpeningBracket, bracketStep]
    rw [cons_append, ((closeFrom_cons ..).2 code).1 _ step, ih run, length_cons]
    congr 1
    omega
  | line feedless ends _ ih =>
    rw [cons_append, cons_append, append_assoc, closeFrom_line feedless ends, ih run]
    simp only [length_cons, length_append]
    congr 1
    omega
  | block unclosed _ ih =>
    rw [cons_append, cons_append, append_assoc, cons_append, cons_append, closeFrom_block unclosed, ih run]
    simp only [length_cons, length_append]
    congr 1
    omega
  | @unclosed body unclosed =>
    rw [append_nil]
    exact closeFrom_unclosed unclosed _ _

/-! ## The end of a search -/

theorem exists_block (within : ['*', '/'] <:+: text) :
    ∃ body rest, text = body ++ '*' :: '/' :: rest ∧ ¬ ['*', '/'] <:+: body := by
  induction text with
  | nil => simp at within
  | cons c text ih =>
    by_cases here : ['*', '/'] <+: c :: text
    · obtain ⟨rest, shape⟩ := here
      exact ⟨[], rest, shape.symm, by simp⟩
    · obtain ⟨body, rest, rfl, unclosed⟩ := ih ((infix_cons_iff.mp within).resolve_left here)
      refine ⟨c :: body, rest, rfl, fun within => ?_⟩
      rcases infix_cons_iff.mp within with starts | within
      · exact here (starts.trans (prefix_append (c :: body) _))
      · exact unclosed within

theorem exists_comment (comment : startsWithComment text = true) :
    ∃ piece rest, text = piece ++ rest ∧ piece ≠ [] ∧ Outline piece [] rest := by
  unfold startsWithComment at comment
  split at comment
  next rest =>
    by_cases feed : '\n' ∈ rest
    · obtain ⟨body, others, rfl, feedless⟩ := eq_append_cons_of_mem feed
      exact ⟨'/' :: '/' :: (body ++ []), '\n' :: others, by simp, by simp, .line feedless (.inr rfl) .nil⟩
    · exact ⟨'/' :: '/' :: (rest ++ []), [], by simp, by simp, .line feed (.inl rfl) .nil⟩
  next rest =>
    by_cases within : ['*', '/'] <:+: rest
    · obtain ⟨body, rest, rfl, unclosed⟩ := exists_block within
      exact ⟨'/' :: '*' :: (body ++ '*' :: '/' :: []), rest, by simp, by simp, .block unclosed .nil⟩
    · exact ⟨'/' :: '*' :: rest, [], by simp, by simp, .unclosed within⟩
  · cases comment

/-- The bracket at the start is closed, or crossed, or it stays open. -/
theorem Pending.search_ends (pending : Pending (d :: awaited) word) (outline : Outline read word rest) {start : Nat}
    (isRead : text.drop start = read ++ rest) :
    (∃ stop, Closes text start stop) ∨ Crosses text start ∨ StaysOpen text start := by
  induction length : rest.length using Nat.strong_induction_on generalizing read word d awaited rest with
  | _ _ ih =>
    have pass : ∀ {piece others : Text} {stack : List Char}, rest = piece ++ others → piece ≠ [] →
        Outline piece stack others → ∀ {d : Char} {awaited : List Char}, Pending (d :: awaited) (word ++ stack) →
        (∃ stop, Closes text start stop) ∨ Crosses text start ∨ StaysOpen text start := by
      rintro piece others stack rfl some outlined d awaited pending
      have shorter := length_pos_iff.mpr some
      rw [length_append] at length
      exact ih others.length (by omega) pending (outline.append outlined) (by rw [isRead, append_assoc]) rfl
    cases rest with
    | nil => exact .inr (.inr ⟨word, d, awaited, by rwa [isRead, append_nil], pending⟩)
    | cons c rest =>
      by_cases comment : startsWithComment (c :: rest) = true
      · obtain ⟨_, _, split, some, outlined⟩ := exists_comment comment
        exact pass split some outlined (by rwa [append_nil])
      · cases isBracket : isBracket c with
        | false =>
          exact pass (singleton_append (l := rest)).symm (by simp) (.other isBracket (by simpa using comment) .nil)
            (by rwa [append_nil])
        | true =>
          have outlined : Outline [c] [c] rest := .bracket isBracket .nil
          cases partner : closingBracket? c with
          | some => exact pass rfl (by simp) outlined (.opened partner .nil pending)
          | none =>
            have closes : isClosingBracket c = true := by simpa [Text.isBracket, isOpeningBracket, partner] using isBracket
            by_cases same : c = d
            · subst same
              cases awaited with
              | nil =>
                cases pending with
                | opened partner inside pending =>
                  cases pending
                  exact .inl ⟨_, read, _, _, c, rest, isRead, rfl, outline, partner, inside⟩
              | cons => exact pass rfl (by simp) outlined pending.close
            · exact .inr (.inl ⟨read, word, c, rest, d, awaited, isRead, outline, pending, closes, same⟩)

/-- From a bracket on, the search answers with the first place up to which the brackets outside of comments pair up. It
has no answer if a closing bracket of the wrong kind stands before such a place, or if the text ends before. -/
theorem closingIndexAt_decides (text : Text) (start : Nat) (opening : Char) (found : text[start]? = some opening)
    (opens : isOpeningBracket opening = true) :
    ∃ answer : Option Nat, text.closingIndexAt start = .ok (answer.map Int.ofNat) ∧
      (∀ stop, answer = some stop ↔ IsLeast { stop | Closes text start stop } stop) ∧
      (answer = none ↔ Crosses text start ∨ StaysOpen text start) := by
  obtain ⟨d, partner⟩ := Option.isSome_iff_exists.mp opens
  have isRead : text.drop start = [opening] ++ text.drop (start + 1) := by
    obtain ⟨inside, rfl⟩ := List.getElem?_eq_some_iff.mp found
    exact (drop_eq_getElem_cons inside)
  have outlined : Outline [opening] [opening] (text.drop (start + 1)) := .bracket (by simp [isBracket, opens]) .nil
  have ends := (Pending.opened partner .nil .nil).search_ends outlined isRead
  have closed : ∀ stop, Closes text start stop → text.closingIndex? start = some stop := by
    rintro stop ⟨read, _, _, d, rest, isRead, rfl, outline, partner, paired⟩
    obtain ⟨unopened, closes, -⟩ := closing_of_partner partner
    rw [closingIndex?, isRead, outline.closeFrom_eq (Pending.opened partner paired .nil).foldlM_next?]
    exact (closeFrom_closing closes _ _).1 (by simp [bracketStep, unopened, closes])
  have broken : Crosses text start ∨ StaysOpen text start → text.closingIndex? start = none := by
    rintro (⟨_, word, found, _, d, awaited, isRead, outline, pending, closes, wrong⟩ |
      ⟨word, d, awaited, outline, pending⟩)
    · have unopened : closingBracket? found = none := by
        simp only [isClosingBracket, Bool.or_eq_true, beq_iff_eq] at closes
        rcases closes with (rfl | rfl) | rfl <;> rfl
      rw [closingIndex?, isRead, outline.closeFrom_eq pending.foldlM_next?]
      exact (closeFrom_closing closes _ _).2 (by simp [bracketStep, unopened, closes, wrong])
    · rw [closingIndex?, ← append_nil (text.drop start), outline.closeFrom_eq pending.foldlM_next?]
      rfl
  refine ⟨text.closingIndex? start, by simp [closingIndexAt], fun stop => ⟨fun answer => ?_, fun least => closed stop least.1⟩,
    fun answer => ?_, broken⟩
  · refine ⟨?_, fun other closes => (Option.some.inj (answer.symm.trans (closed other closes))).le⟩
    obtain ⟨other, closes⟩ | fails := ends
    · exact (Option.some.inj (answer.symm.trans (closed other closes))) ▸ closes
    · cases answer.symm.trans (broken fails)
  · obtain ⟨other, closes⟩ | fails := ends
    · cases answer.symm.trans (closed other closes)
    · exact fails

theorem closingIndexAt_decides_comments :
    closingIndexAt "(/*]*/[//)\n])".toList 0 = .ok (some 12) ∧
      IsLeast { stop | Closes "(/*]*/[//)\n])".toList 0 stop } 12 := by
  obtain ⟨answer, found, least, -⟩ := closingIndexAt_decides "(/*]*/[//)\n])".toList 0 '(' rfl rfl
  have searched : closingIndexAt "(/*]*/[//)\n])".toList 0 = .ok (some 12) := by decide +kernel
  refine ⟨searched, (least 12).mp ?_⟩
  cases answer with
  | none => cases searched.symm.trans found
  | some stop =>
    have same : (12 : Int) = stop := by simpa using searched.symm.trans found
    exact congrArg some (by omega)

end SysYTools.Text
