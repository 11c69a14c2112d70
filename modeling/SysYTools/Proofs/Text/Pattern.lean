import SysYTools.Proofs.Text.Template

/-!
Patterns that have plain text in them. A pattern leaves an end of the text, so where a pattern occurs that ends
with plain text, that text stands. Plain text around a run of characters is read as it is written.
-/

namespace SysYTools

open List

namespace Pattern

variable {charClass : Class} {part rest text : Text} {rests : List Text}

/-- The pattern that describes a text only. -/
def literal (text : Text) : Pattern := text.map fun c => { charClass := .only c, repetition := .once }

/-- The texts that can be left after a piece at the start of one of several texts. -/
def advance (rests : List Text) (piece : Piece) : List Text := (rests.flatMap piece.rests).eraseDups

theorem startsWith_eq (pattern : Pattern) (text : Text) :
    pattern.startsWith text = !(pattern.foldl advance [text]).isEmpty := rfl

theorem mem_advance {piece : Piece} : rest ∈ advance rests piece ↔ ∃ text ∈ rests, rest ∈ piece.rests text := by
  rw [advance, mem_eraseDups, mem_flatMap]

theorem Class.suffix_of_mem_restsAfterOne (member : rest ∈ charClass.restsAfterOne text) : rest <:+ text := by
  cases text with
  | nil => cases member
  | cons c =>
    rw [restsAfterOne] at member
    split at member
    · obtain rfl := mem_singleton.mp member
      exact suffix_cons c rest
    · cases member

theorem Class.suffix_of_mem_restsAfterRun (member : rest ∈ charClass.restsAfterRun text) : rest <:+ text := by
  induction text with
  | nil =>
    obtain rfl := mem_singleton.mp member
    exact suffix_rfl
  | cons c text ih =>
    rw [restsAfterRun] at member
    rcases mem_cons.mp member with rfl | later
    · exact suffix_rfl
    · split at later
      · exact (ih later).trans (suffix_cons c text)
      · cases later

theorem Piece.suffix_of_mem_rests {piece : Piece} (member : rest ∈ piece.rests text) : rest <:+ text := by
  rw [rests] at member
  split at member
  · exact Class.suffix_of_mem_restsAfterOne member
  · rcases mem_cons.mp member with rfl | member
    · exact suffix_rfl
    · exact Class.suffix_of_mem_restsAfterOne member
  · obtain ⟨_, one, run⟩ := mem_flatMap.mp member
    exact (Class.suffix_of_mem_restsAfterRun run).trans (Class.suffix_of_mem_restsAfterOne one)
  · exact Class.suffix_of_mem_restsAfterRun member

theorem suffix_of_mem_foldl {pattern : Pattern} (member : rest ∈ pattern.foldl advance rests) :
    ∃ text ∈ rests, rest <:+ text := by
  induction pattern generalizing rests with
  | nil => exact ⟨rest, member, suffix_rfl⟩
  | cons _ _ ih =>
    obtain ⟨_, isMiddle, ends⟩ := ih member
    obtain ⟨text, isText, left⟩ := mem_advance.mp isMiddle
    exact ⟨text, isText, ends.trans (Piece.suffix_of_mem_rests left)⟩

theorem prefix_of_mem_foldl_literal (member : rest ∈ (literal part).foldl advance rests) :
    ∃ text ∈ rests, part <+: text := by
  induction part generalizing rests with
  | nil => exact ⟨rest, member, nil_prefix⟩
  | cons c _ ih =>
    obtain ⟨middle, isMiddle, starts⟩ := ih member
    obtain ⟨text, isText, left⟩ := mem_advance.mp isMiddle
    refine ⟨text, isText, ?_⟩
    cases text with
    | nil => cases left
    | cons d text =>
      by_cases same : d = c
      · obtain rfl : middle = text := by simpa [Piece.rests, Class.restsAfterOne, Class.has, same] using left
        exact cons_prefix_cons.mpr ⟨same.symm, starts⟩
      · simp [Piece.rests, Class.restsAfterOne, Class.has, same] at left

theorem mem_foldl_literal (member : part ++ rest ∈ rests) : rest ∈ (literal part).foldl advance rests := by
  induction part generalizing rests with
  | nil => exact member
  | cons c part ih =>
    refine ih (mem_advance.mpr ⟨c :: (part ++ rest), member, ?_⟩)
    simp [Piece.rests, Class.restsAfterOne, Class.has]

theorem Class.mem_restsAfterRun {run : Text} (all : ∀ c ∈ run, charClass.has c = true) (rest : Text) :
    rest ∈ charClass.restsAfterRun (run ++ rest) := by
  induction run with
  | nil => cases rest <;> exact mem_cons_self
  | cons _ _ ih =>
    obtain ⟨first, others⟩ := forall_mem_cons.mp all
    rw [cons_append, restsAfterRun, if_pos first]
    exact mem_cons_of_mem _ (ih others)

theorem occursIn_of_run {piece : Piece} {run more after : Text}
    (passes : more ++ after ∈ piece.rests (run ++ (more ++ after))) :
    ((literal part ++ [piece]) ++ literal more).occursIn (part ++ (run ++ (more ++ after))) = true := by
  have starts : ((literal part ++ [piece]) ++ literal more).startsWith (part ++ (run ++ (more ++ after))) = true := by
    rw [startsWith_eq, foldl_append, foldl_append, Bool.not_eq_true', isEmpty_eq_false_iff]
    refine ne_nil_of_mem (@mem_foldl_literal more after _ (mem_advance.mpr ⟨_, ?_, passes⟩))
    exact mem_foldl_literal mem_cons_self
  cases whole : part ++ (run ++ (more ++ after)) with
  | nil => rwa [whole] at starts
  | cons =>
    rw [whole] at starts
    rw [occursIn, starts, Bool.true_or]

theorem hasPart_of_occursIn {more : Pattern} (occurs : (more ++ literal part).occursIn text = true) :
    text.hasPart part = true := by
  have starts : ∀ text, (more ++ literal part).startsWith text = true → part <:+: text := by
    intro text starts
    rw [startsWith_eq, foldl_append, Bool.not_eq_true', isEmpty_eq_false_iff] at starts
    obtain ⟨_, member⟩ := exists_mem_of_ne_nil _ starts
    obtain ⟨_, isLeft, begins⟩ := prefix_of_mem_foldl_literal member
    obtain ⟨_, isWhole, ends⟩ := suffix_of_mem_foldl isLeft
    obtain rfl := mem_singleton.mp isWhole
    exact begins.isInfix.trans ends.isInfix
  rw [Text.hasPart_iff]
  induction text with
  | nil => exact starts [] occurs
  | cons c text ih =>
    rw [occursIn, Bool.or_eq_true] at occurs
    rcases occurs with here | later
    · exact starts _ here
    · exact (ih later).trans (suffix_cons c text).isInfix

/-- A character that stands for itself in a pattern. -/
def isPlain (c : Char) : Bool := !(['\\', '.', '[', '(', ')', '*', '+', '?'].contains c)

private theorem readClass?_of_isPlain {c : Char} (plain : isPlain c = true) (rest : Text) :
    readClass? c rest = some (.only c, rest) := by
  simp [isPlain] at plain
  unfold readClass?
  split <;> simp_all

private theorem readRepetition_of_isPlain (next : ∀ c ∈ rest.head?, c ≠ '*' ∧ c ≠ '+' ∧ c ≠ '?') :
    readRepetition rest = (.once, rest) := by
  unfold readRepetition
  split <;> simp_all

theorem ofText_cons {c : Char} {text rest : Text} {charClass : Class}
    (read : readClass? c text = some (charClass, rest)) :
    ofText (c :: text) = (ofText (readRepetition rest).2).map
      ({ charClass, repetition := (readRepetition rest).1 } :: ·) := by
  rw [ofText]
  split
  next unread =>
    rw [read] at unread
    cases unread
  next found =>
    rw [read] at found
    cases found
    cases ofText (readRepetition rest).2 <;> rfl

theorem ofText_append {part rest : Text} (plain : part.all isPlain = true)
    (next : ∀ c ∈ rest.head?, c ≠ '*' ∧ c ≠ '+' ∧ c ≠ '?') :
    ofText (part ++ rest) = (ofText rest).map (literal part ++ ·) := by
  induction part with
  | nil =>
    rw [nil_append]
    cases ofText rest <;> rfl
  | cons c part ih =>
    rw [all_cons, Bool.and_eq_true] at plain
    have follows : ∀ d ∈ (part ++ rest).head?, d ≠ '*' ∧ d ≠ '+' ∧ d ≠ '?' := by
      cases part with
      | nil => exact next
      | cons =>
        have plainNext := (Bool.and_eq_true_iff.mp (all_cons ▸ plain.2)).1
        simp only [isPlain, contains_eq_mem, mem_cons, not_mem_nil, or_false,
          Bool.not_eq_true', decide_eq_false_iff_not, not_or] at plainNext
        simp only [cons_append, head?_cons, Option.mem_def, Option.some.injEq]
        rintro _ rfl
        tauto
    rw [cons_append, ofText_cons (readClass?_of_isPlain plain.1 _), readRepetition_of_isPlain follows, ih plain.2]
    cases ofText rest <;> rfl

theorem ofText_literal (plain : part.all isPlain = true) : ofText part = .ok (literal part) := by
  have whole := @ofText_append part [] plain (by simp)
  simpa [ofText, Except.map] using whole

section

variable {part more : Text} (plain : part.all isPlain = true) (plainMore : more.all isPlain = true)
include plain plainMore

theorem ofText_any :
    ofText (part ++ '.' :: '*' :: more) =
      .ok ((literal part ++ [{ charClass := .any, repetition := .anyNumber }]) ++ literal more) := by
  rw [ofText_append plain (by simp), @ofText_cons '.' ('*' :: more) _ .any rfl, readRepetition,
    ofText_literal plainMore, append_assoc]
  rfl

theorem ofText_word :
    ofText (part ++ '\\' :: 'w' :: '+' :: more) =
      .ok ((literal part ++ [{ charClass := .word, repetition := .atLeastOnce }]) ++ literal more) := by
  rw [ofText_append plain (by simp), @ofText_cons '\\' ('w' :: '+' :: more) _ .word rfl, readRepetition,
    ofText_literal plainMore, append_assoc]
  rfl

end

end Pattern

end SysYTools
