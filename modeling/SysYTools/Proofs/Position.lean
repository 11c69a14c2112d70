import SysYTools.Proofs.Document

/-!
Positions and offsets count the same places of a text. The lines of a text cut it at its line feeds, so each
line has a text in front of it that ends with as many feeds as there are lines before. A position beyond the
end of its line, or beyond the last line, stands for that end.
-/

namespace SysYTools

open List

variable {few many number : Nat} {position : Position}

namespace Text

/-- The length of the first lines of a text, each with its line feed. -/
def lengthOfLines (lines : List Text) : Nat := lines.foldr (fun line total => line.length + 1 + total) 0

theorem lengthOfLines_append (left right : List Text) :
    lengthOfLines (left ++ right) = lengthOfLines left + lengthOfLines right := by
  induction left with
  | nil => simp [lengthOfLines]
  | cons _ _ ih =>
    simp only [lengthOfLines, cons_append, foldr_cons] at ih ⊢
    omega

theorem lengthOfLines_take_le (lines : List Text) (fewer : few ≤ many) :
    lengthOfLines (lines.take few) ≤ lengthOfLines (lines.take many) := by
  obtain ⟨_, split⟩ := take_prefix_take_left (l := lines) fewer
  rw [← split, lengthOfLines_append]
  omega

theorem exists_line_cut (text : Text) {line : Text} (found : text.lines[number]? = some line) :
    ∃ before after, text = before ++ line ++ after ∧ before.count '\n' = number ∧ before.lastLine = [] ∧
      before.length = lengthOfLines (text.lines.take number) ∧ '\n' ∉ line ∧ ∀ c ∈ after.head?, c = '\n' := by
  induction text generalizing number line with
  | nil =>
    cases number with
    | zero =>
      obtain rfl : [] = line := Option.some.inj found
      exact ⟨[], [], rfl, rfl, rfl, rfl, by simp, by simp⟩
    | succ => simp [lines] at found
  | cons c rest ih =>
    by_cases feed : c = '\n'
    · subst feed
      rw [lines_cons_feed] at found ⊢
      cases number with
      | zero =>
        obtain rfl : [] = line := Option.some.inj found
        exact ⟨[], '\n' :: rest, rfl, rfl, rfl, rfl, by simp, by simp⟩
      | succ =>
        obtain ⟨before, after, rfl, count, last, length, inner, ends⟩ := ih (by simpa using found)
        refine ⟨'\n' :: before, after, rfl, by simp [count], ?_, ?_, inner, ends⟩
        · rw [lastLine_cons, if_neg (by simp), last]
        · simp only [length_cons, length, take_succ_cons, lengthOfLines, foldr_cons,
            length_nil]
          omega
    · obtain ⟨head, _, plain, extended⟩ := lines_cons_of_ne rest feed
      rw [extended] at found ⊢
      rw [plain] at ih
      cases number with
      | zero =>
        obtain ⟨before, after, split, -, -, length, inner, ends⟩ := @ih 0 head rfl
        obtain rfl : before = [] := eq_nil_of_length_eq_zero (by simpa [lengthOfLines] using length)
        obtain rfl : c :: head = line := Option.some.inj found
        refine ⟨[], after, by simpa using split, rfl, rfl, rfl, ?_, ends⟩
        simpa [Ne.symm feed] using inner
      | succ number =>
        obtain ⟨before, after, rfl, count, last, length, inner, ends⟩ := @ih (number + 1) line (by simpa using found)
        refine ⟨c :: before, after, rfl, by simp [count, feed], ?_, ?_, inner, ends⟩
        · have many : '\n' ∈ before := count_pos_iff.mp (by omega)
          rw [lastLine_cons, if_neg fun alone => alone.2 many, last]
        · simp only [length_cons, length, take_succ_cons, lengthOfLines, foldr_cons]
          omega

end Text

namespace Document

open Text

variable (document : Document)

theorem getElem?_lines (present : number < document.lines.length) :
    document.lines[number]? = some (document.line number) := by
  rw [Document.line, getElem?_eq_getElem present, Option.getD_some]

theorem offsetAt_of_lt (present : position.line < document.lines.length) :
    document.offsetAt position = lengthOfLines (document.lines.take position.line) +
      min position.character (document.line position.line).length := by
  rw [offsetAt, drop_eq_getElem_cons present]
  simp only [Document.line, getElem?_eq_getElem present, Option.getD_some, lengthOfLines]

theorem offsetAt_of_ge (beyond : document.lines.length ≤ position.line) :
    document.offsetAt position = document.text.length := by
  rw [offsetAt, drop_eq_nil_of_le beyond]

/-- Where a position in an existing line leads to: behind the lines before and the start of its own. -/
theorem exists_cut_at {position : Position} (present : position.line < document.lines.length) :
    ∃ before after, document.text = before ++ document.line position.line ++ after ∧
      before.count '\n' = position.line ∧ before.lastLine = [] ∧ '\n' ∉ document.line position.line ∧
      (∀ c ∈ after.head?, c = '\n') ∧ document.offsetAt position =
        before.length + min position.character (document.line position.line).length := by
  obtain ⟨before, after, split, count, last, length, inner, ends⟩ :=
    exists_line_cut document.text (document.getElem?_lines present)
  refine ⟨before, after, split, count, last, inner, ends, ?_⟩
  rw [document.offsetAt_of_lt present, length]
  rfl

theorem offsetAt_le_length (position : Position) : document.offsetAt position ≤ document.text.length := by
  rcases Nat.lt_or_ge position.line document.lines.length with present | beyond
  · obtain ⟨_, _, split, -, -, -, -, offset⟩ := document.exists_cut_at present
    rw [offset, congrArg List.length split]
    simp only [length_append]
    omega
  · exact le_of_eq (document.offsetAt_of_ge beyond)

theorem positionAt_offsetAt_of_lt (present : position.line < document.lines.length) :
    document.positionAt (document.offsetAt position) =
      ⟨position.line, min position.character (document.line position.line).length⟩ := by
  obtain ⟨before, after, split, count, last, inner, -, offset⟩ := document.exists_cut_at present
  set line := document.line position.line
  have none : '\n' ∉ line.take position.character := fun member => inner (mem_of_mem_take member)
  have cut : document.text = before ++ line.take position.character ++ (line.drop position.character ++ after) := by
    rw [append_assoc, ← append_assoc (line.take _), take_append_drop, ← append_assoc, split]
  have reached : (before ++ line.take position.character).length = document.offsetAt position := by
    rw [offset, length_append, length_take]
  have place := positionAt_length document.uri (before ++ line.take position.character)
    (line.drop position.character ++ after)
  rw [← cut, reached] at place
  rw [show document = { uri := document.uri, text := document.text } from rfl, place, count_append, count,
    count_eq_zero.mpr none, lastLine_append_of_no_feed before none, last, nil_append, length_take,
    Nat.add_zero]

theorem feed_of_line_le (present : position.line < document.lines.length)
    (behind : (document.line position.line).length ≤ position.character) :
    ∀ c ∈ (document.text.drop (document.offsetAt position)).head?, c = '\n' := by
  obtain ⟨_, _, split, -, -, -, ends, offset⟩ := document.exists_cut_at present
  rw [offset, Nat.min_eq_right behind, ← length_append, split, drop_left]
  exact ends

theorem offsetAt_mono {left right : Position} (order : left.le right = true) :
    document.offsetAt left ≤ document.offsetAt right := by
  rcases Nat.lt_or_ge right.line document.lines.length with present | beyond
  · have order : left.line < right.line ∨ left.line = right.line ∧ left.character ≤ right.character := by
      simpa [Position.le] using order
    rcases order with above | ⟨same, order⟩
    · have presentLeft := above.trans present
      have next : lengthOfLines (document.lines.take (left.line + 1)) =
          lengthOfLines (document.lines.take left.line) + ((document.line left.line).length + 1) := by
        rw [take_add_one, document.getElem?_lines presentLeft, lengthOfLines_append]
        simp [lengthOfLines]
      have later := lengthOfLines_take_le document.lines above
      rw [Nat.succ_eq_add_one] at later
      rw [document.offsetAt_of_lt presentLeft, document.offsetAt_of_lt present]
      omega
    · rw [document.offsetAt_of_lt (same ▸ present), document.offsetAt_of_lt present, same]
      exact Nat.add_le_add_left (min_le_min_right _ order) _
  · rw [document.offsetAt_of_ge beyond]
    exact document.offsetAt_le_length left

theorem positionAt_mono (order : few ≤ many) : (document.positionAt few).le (document.positionAt many) = true := by
  obtain ⟨more, split⟩ := take_prefix_take_left (l := document.text) order
  have place : ∀ offset, document.positionAt offset =
      ⟨(document.text.take offset).count '\n', (lastLine (document.text.take offset)).length⟩ := by
    intro offset
    simp [positionAt, lastLine]
  rw [place, place, ← split, count_append]
  by_cases none : '\n' ∈ more
  · have feeds := count_pos_iff.mpr none
    simp [Position.le, feeds]
  · simp [Position.le, count_eq_zero.mpr none, lastLine_append_of_no_feed _ none]

/-- Positions and offsets are inverse to each other and in the same order. A position that no line has stands
for the end of its line, and one without a line for the end of the text. -/
theorem positions_count_offsets (document : Document) :
    (∀ offset ≤ document.text.length, document.offsetAt (document.positionAt offset) = offset) ∧
    (∀ position : Position, position.line < document.lines.length →
      position.character ≤ (document.line position.line).length →
        document.positionAt (document.offsetAt position) = position) ∧
    (∀ position : Position, position.line < document.lines.length →
      (document.line position.line).length < position.character → document.positionAt (document.offsetAt position) =
          ⟨position.line, (document.line position.line).length⟩ ∧
        ∀ c ∈ (document.text.drop (document.offsetAt position)).head?, c = '\n') ∧
    (∀ position : Position, document.lines.length ≤ position.line →
      document.offsetAt position = document.text.length) ∧
    (∀ left right : Position, left.le right = true → document.offsetAt left ≤ document.offsetAt right) ∧
    ∀ few many : Int, few ≤ many → (document.positionNear few).le (document.positionNear many) = true := by
  refine ⟨fun offset within => document.offsetAt_positionAt within, ?_, ?_,
    fun position beyond => document.offsetAt_of_ge beyond, fun left right order => document.offsetAt_mono order,
    fun few many order => document.positionAt_mono (Int.toNat_le_toNat order)⟩
  · intro position present within
    rw [document.positionAt_offsetAt_of_lt present, Nat.min_eq_left within]
  · intro position present behind
    refine ⟨?_, document.feed_of_line_le present (Nat.le_of_lt behind)⟩
    rw [document.positionAt_offsetAt_of_lt present, Nat.min_eq_right (Nat.le_of_lt behind)]

/-- A text that ends with a line feed has an empty last line. A position behind its first line is taken back to
the feed, and it stays in front of the last line. -/
theorem positions_count_offsets_feed :
    ∃ document : Document, document.text = "ab\n".toList ∧ document.lines.length = 2 ∧
      document.offsetAt (document.positionAt 3) = 3 ∧ document.positionAt (document.offsetAt ⟨1, 0⟩) = ⟨1, 0⟩ ∧
      document.positionAt (document.offsetAt ⟨0, 7⟩) = ⟨0, 2⟩ ∧ document.offsetAt ⟨2, 0⟩ = 3 ∧
      document.offsetAt ⟨0, 7⟩ ≤ document.offsetAt ⟨1, 0⟩ ∧
      (document.positionNear (-1)).le (document.positionNear 2) = true := by
  obtain ⟨back, forth, clamped, beyond, offsets, positions⟩ := positions_count_offsets ⟨"t.sy", "ab\n".toList⟩
  exact ⟨⟨"t.sy", "ab\n".toList⟩, rfl, by decide, back 3 (by decide), forth ⟨1, 0⟩ (by decide) (by decide),
    (clamped ⟨0, 7⟩ (by decide) (by decide)).1, beyond ⟨2, 0⟩ (by decide), offsets _ _ (by decide),
    positions _ _ (by decide)⟩

end Document

end SysYTools
