import Mathlib
import SysYTools.Document.Basic

/-!
Offsets and positions of a document. A cut of the text at an offset leaves whole lines in front of it and
the start of one more line, which is what the position of the offset counts.
-/

namespace SysYTools

open List

theorem Except.eq_ok_of_toOption {ε α : Type} {result : Except ε α} {value : α}
    (found : result.toOption = some value) : result = .ok value := by
  cases result with
  | error => cases found
  | ok => exact congrArg _ (Option.some.inj found)

theorem Except.exists_of_isSome {ε α : Type} {result : Except ε α} (found : result.toOption.isSome = true) :
    ∃ answer, result = .ok answer := by
  obtain ⟨answer, same⟩ := Option.isSome_iff_exists.mp found
  exact ⟨answer, eq_ok_of_toOption same⟩

/-- What a run gives can be read off the run. -/
theorem Except.exists_of_toOption {ε α β : Type} {result : Except ε α} {read : α → β} {value : β}
    (found : result.toOption.map read = some value) : ∃ answer, result = .ok answer ∧ read answer = value := by
  obtain ⟨answer, same, isValue⟩ := Option.map_eq_some_iff.mp found
  exact ⟨answer, eq_ok_of_toOption same, isValue⟩

namespace Text

def lastLine (text : Text) : Text := (text.reverse.takeWhile (· != '\n')).reverse

theorem lines_ne_nil (text : Text) : text.lines ≠ [] := by
  cases text with
  | nil => simp [lines]
  | cons =>
    simp only [lines]
    split
    · simp
    · split <;> simp

theorem lines_cons_feed (rest : Text) : lines ('\n' :: rest) = [] :: lines rest := rfl

theorem lines_cons_of_ne {c : Char} (rest : Text) (other : c ≠ '\n') :
    ∃ line more, lines rest = line :: more ∧ lines (c :: rest) = (c :: line) :: more := by
  cases found : lines rest with
  | nil => exact absurd found (lines_ne_nil rest)
  | cons line more => exact ⟨line, more, rfl, by simp [lines, other, found]⟩

@[simp] theorem lastLine_nil : lastLine [] = [] := rfl

theorem lastLine_of_no_feed {text : Text} (none : '\n' ∉ text) : text.lastLine = text := by
  have all : ∀ c ∈ text.reverse, (c != '\n') = true := by
    intro c member
    simp only [mem_reverse] at member
    exact bne_iff_ne.mpr fun same => none (same ▸ member)
  rw [lastLine, takeWhile_eq_self_iff.mpr all, reverse_reverse]

theorem lastLine_append_feed (before : Text) : lastLine (before ++ ['\n']) = [] := by simp [lastLine]

theorem lastLine_append_of_ne (before : Text) {c : Char} (other : c ≠ '\n') :
    lastLine (before ++ [c]) = lastLine before ++ [c] := by
  simp [lastLine, other]

theorem lastLine_append_of_no_feed (before : Text) {after : Text} (none : '\n' ∉ after) :
    lastLine (before ++ after) = lastLine before ++ after := by
  induction after using List.reverseRecOn with
  | nil => simp
  | append_singleton _ _ ih =>
    simp only [mem_append, mem_singleton, not_or] at none
    rw [← append_assoc, lastLine_append_of_ne _ (Ne.symm none.2), ih none.1, append_assoc]

theorem lastLine_cons (c : Char) (rest : Text) :
    lastLine (c :: rest) = if c ≠ '\n' ∧ '\n' ∉ rest then c :: rest else lastLine rest := by
  split
  next alone =>
    apply lastLine_of_no_feed
    simp only [mem_cons, not_or]
    exact ⟨Ne.symm alone.1, alone.2⟩
  next shared =>
    rw [lastLine, lastLine, reverse_cons, takeWhile_append]
    split
    next whole =>
      have all : ∀ d ∈ rest, d ≠ '\n' := by
        intro d member
        have := takeWhile_eq_self_iff.mp
          (List.IsPrefix.eq_of_length ( takeWhile_prefix _) whole) d (by simpa using member)
        simpa using this
      have feed : c = '\n' := by
        by_contra other
        exact shared ⟨other, fun member => all _ member rfl⟩
      simp [feed, takeWhile_eq_self_iff.mpr (fun d member => bne_iff_ne.mpr (all d (mem_reverse.mp member)))]
    · rfl

theorem lines_cut (before after : Text) :
    ∃ line more, (before ++ after).lines.drop (before.count '\n') = line :: more ∧
      before.lastLine.length ≤ line.length ∧
      ((before ++ after).lines.take (before.count '\n')).foldr (fun line total => line.length + 1 + total) 0 +
        before.lastLine.length = before.length := by
  induction before with
  | nil =>
    cases found : after.lines with
    | nil => exact absurd found (lines_ne_nil after)
    | cons line more => exact ⟨line, more, by simp [found], by simp, by simp⟩
  | cons c before ih =>
    obtain ⟨line, more, rest, fits, total⟩ := ih
    by_cases feed : c = '\n'
    · subst feed
      refine ⟨line, more, ?_, ?_, ?_⟩
      · simpa [lines_cons_feed] using rest
      · simpa [lastLine_cons] using fits
      · simp only [cons_append, lines_cons_feed, count_cons_self, take_succ_cons,
          foldr_cons, length_nil, length_cons, lastLine_cons]
        simp only [ne_eq, not_true_eq_false, false_and, ↓reduceIte]
        omega
    · obtain ⟨head, tail, plain, extended⟩ := lines_cons_of_ne (before ++ after) feed
      have count : (c :: before).count '\n' = before.count '\n' := by simp [feed]
      simp only [cons_append]
      rw [extended, count]
      by_cases none : '\n' ∈ before
      · have positive : 0 < before.count '\n' := count_pos_iff.mpr none
        obtain ⟨number, found⟩ : ∃ number, before.count '\n' = number + 1 := ⟨before.count '\n' - 1, by omega⟩
        rw [plain, found] at rest total
        rw [found]
        simp only [drop_succ_cons, take_succ_cons, foldr_cons, length_cons] at rest total ⊢
        have same : lastLine (c :: before) = lastLine before := by
          rw [lastLine_cons, if_neg (fun alone => alone.2 none)]
        exact ⟨line, more, rest, by rw [same]; exact fits, by rw [same]; omega⟩
      · have zero : before.count '\n' = 0 := count_eq_zero.mpr none
        have whole : lastLine (c :: before) = c :: before := by rw [lastLine_cons, if_pos ⟨feed, none⟩]
        rw [zero, plain] at rest
        obtain ⟨rfl, rfl⟩ := List.cons.inj rest
        rw [lastLine_of_no_feed none] at fits
        rw [zero, whole]
        exact ⟨c :: head, tail, rfl, by simpa using fits, by simp⟩

end Text

namespace Position

theorem checked_eq_ok_iff {coordinate : Coordinate} {value : Int} {found : Nat} :
    checked coordinate value = .ok found ↔ value = found ∧ value ≤ Coordinate.limit := by
  unfold checked
  split
  next within =>
    simp only [Except.ok.injEq]
    omega
  next outside =>
    simp only [reduceCtorEq, false_iff]
    omega

theorem ofInts_eq_ok_iff {line character : Int} {position : Position} :
    ofInts line character = .ok position ↔ (line = position.line ∧ line ≤ Coordinate.limit) ∧
        character = position.character ∧ character ≤ Coordinate.limit := by
  obtain ⟨_, _⟩ := position
  rw [← @checked_eq_ok_iff .line, ← @checked_eq_ok_iff .character]
  unfold ofInts
  cases checked .line line with
  | error => simp [bind, Except.bind]
  | ok =>
    cases checked .character character with
    | error => simp [bind, Except.bind]
    | ok => simp [bind, Except.bind, pure, Except.pure]

end Position

namespace Range

theorem ofInts_eq_ok_iff {startLine startCharacter stopLine stopCharacter : Int} {range : Range} :
    ofInts startLine startCharacter stopLine stopCharacter = .ok range ↔
      Position.ofInts startLine startCharacter = .ok range.start ∧
        Position.ofInts stopLine stopCharacter = .ok range.stop := by
  obtain ⟨_, _⟩ := range
  unfold ofInts
  cases Position.ofInts startLine startCharacter with
  | error => simp [bind, Except.bind]
  | ok =>
    cases Position.ofInts stopLine stopCharacter with
    | error => simp [bind, Except.bind]
    | ok => simp [bind, Except.bind, pure, Except.pure]

end Range

namespace Document

theorem positionAt_length (uri : String) (before after : Text) :
    positionAt { uri, text := before ++ after } before.length =
      { line := before.count '\n', character := before.lastLine.length } := by
  simp [positionAt, Text.lastLine]

theorem offsetAt_positionAt (document : Document) {offset : Nat} (within : offset ≤ document.text.length) :
    document.offsetAt (document.positionAt offset) = offset := by
  obtain ⟨_, text⟩ := document
  have cut : text = text.take offset ++ text.drop offset := (take_append_drop offset text).symm
  have length : (text.take offset).length = offset := length_take_of_le within
  generalize text.take offset = before at cut length
  generalize text.drop offset = after at cut
  subst cut length
  obtain ⟨_, _, rest, fits, total⟩ := Text.lines_cut before after
  rw [positionAt_length]
  simp only [offsetAt, lines]
  rw [rest]
  simp only [Nat.min_eq_left fits]
  exact total

theorem offsetAt_after (uri : String) {before text : Text} (within : before <+: text) :
    offsetAt { uri, text } { line := before.count '\n', character := before.lastLine.length } =
      before.length := by
  obtain ⟨after, rfl⟩ := within
  rw [← positionAt_length uri before after]
  exact offsetAt_positionAt _ (by simp)

end Document

end SysYTools
