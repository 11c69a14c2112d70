import SysYTools.Proofs.Fix.Marks
import SysYTools.Proofs.Tree.Transport

/-!
Text put between two pieces of a text. The places before it stay, those on the rest of its line move on along
the line on which it ends, and those on later lines move down. The words around it are the old ones at the
changed places.
-/

namespace SysYTools

open List

variable {after more value : Text} {place : ℤ ×ₗ ℤ}

theorem Text.lastLine_append_of_feed (before : Text) (feed : '\n' ∈ after) :
    Text.lastLine (before ++ after) = Text.lastLine after := by
  have stops : (after.reverse.takeWhile (· != '\n')).length ≠ after.reverse.length := by
    intro whole
    have all := takeWhile_eq_self_iff.mp (List.IsPrefix.eq_of_length ( takeWhile_prefix _) whole)
    have := all '\n' (mem_reverse.mpr feed)
    contradiction
  rw [Text.lastLine, reverse_append, takeWhile_append, if_neg stops, Text.lastLine]

namespace Lexis

/-! ## Places -/

/-- The place right after a text. -/
def placeAfter (text : Text) : ℤ ×ₗ ℤ := toLex (text.count '\n' + 1, text.lastLine.length + 1)

theorem placeAfter_append (before : Text) (none : '\n' ∉ more) :
    placeAfter (before ++ more) =
      toLex ((before.count '\n' + 1 : ℤ), (before.lastLine.length + more.length + 1 : ℤ)) := by
  rw [placeAfter, Text.lastLine_append_of_no_feed before none, count_append, count_eq_zero.mpr none, length_append]
  push_cast
  rfl

theorem placeAfter_append_of_feed (before : Text) (feed : '\n' ∈ more) :
    placeAfter (before ++ more) =
      toLex ((before.count '\n' + more.count '\n' + 1 : ℤ), (more.lastLine.length + 1 : ℤ)) := by
  rw [placeAfter, Text.lastLine_append_of_feed before feed, count_append]
  push_cast
  rfl

theorem placeAfter_le {before : Text} (ahead : before <+: after) : placeAfter before ≤ placeAfter after := by
  have order := Place.after_le ahead
  rw [Place.start_after, Place.start_after] at order
  exact_mod_cast order

theorem placeAfter_lt {before : Text} (ahead : before <+: after) (longer : before ≠ after) :
    placeAfter before < placeAfter after := by
  obtain ⟨more, rfl⟩ := ahead
  have some : more ≠ [] := by
    rintro rfl
    exact longer (append_nil before).symm
  have positive := length_pos_iff.mpr some
  rw [placeAfter, Prod.Lex.lt_iff]
  by_cases feed : '\n' ∈ more
  · have feeds := count_pos_iff.mpr feed
    rw [placeAfter_append_of_feed before feed]
    exact .inl (by simp only [ofLex_toLex]; omega)
  · rw [placeAfter_append before feed]
    exact .inr ⟨rfl, by simp only [ofLex_toLex]; omega⟩

/-- The change of places when a text is put in after another one. -/
def pushed (before inserted : Text) (place : ℤ ×ₗ ℤ) : ℤ ×ₗ ℤ :=
  let here := ofLex (placeAfter before)
  let there := ofLex (placeAfter (before ++ inserted))
  if place < placeAfter before then place
  else if (ofLex place).1 = here.1 then toLex (there.1, (ofLex place).2 - here.2 + there.2)
  else toLex ((ofLex place).1 - here.1 + there.1, (ofLex place).2)

variable {before inserted : Text}

theorem pushed_of_lt (ahead : place < placeAfter before) : pushed before inserted place = place := if_pos ahead

theorem pushed_placeAfter (more : Text) :
    pushed before inserted (placeAfter (before ++ more)) = placeAfter (before ++ inserted ++ more) := by
  have behind : ¬ placeAfter (before ++ more) < placeAfter before :=
    not_lt.mpr (placeAfter_le ( prefix_append before more))
  rw [pushed, if_neg behind]
  by_cases feed : '\n' ∈ more
  · have later : (ofLex (placeAfter (before ++ more))).1 ≠ (ofLex (placeAfter before)).1 := by
      have feeds := count_pos_iff.mpr feed
      rw [placeAfter_append_of_feed before feed, placeAfter]
      simp only [ofLex_toLex]
      omega
    rw [if_neg later, placeAfter_append_of_feed before feed, placeAfter_append_of_feed (before ++ inserted) feed,
      placeAfter, placeAfter]
    simp only [ofLex_toLex]
    congr 2
    ring
  · have sameLine : (ofLex (placeAfter (before ++ more))).1 = (ofLex (placeAfter before)).1 := by
      rw [placeAfter_append before feed]
      rfl
    rw [if_pos sameLine, placeAfter_append before feed, placeAfter_append (before ++ inserted) feed, placeAfter,
      placeAfter]
    simp only [ofLex_toLex]
    congr 2
    ring

theorem le_pushed (behind : ¬ place < placeAfter before) :
    placeAfter (before ++ inserted) ≤ pushed before inserted place := by
  rw [pushed, if_neg behind]
  rw [not_lt, Prod.Lex.le_iff] at behind
  split
  next same =>
    rw [Prod.Lex.le_iff]
    exact .inr ⟨rfl, by simp only [ofLex_toLex]; omega⟩
  · rw [Prod.Lex.le_iff]
    exact .inl (by simp only [ofLex_toLex]; omega)

theorem pushed_strictMono (before inserted : Text) : StrictMono (pushed before inserted) := by
  intro left right ahead
  by_cases rightAhead : right < placeAfter before
  · rwa [pushed_of_lt rightAhead, pushed_of_lt (ahead.trans rightAhead)]
  by_cases leftAhead : left < placeAfter before
  · calc pushed before inserted left = left := pushed_of_lt leftAhead
      _ < placeAfter before := leftAhead
      _ ≤ placeAfter (before ++ inserted) := placeAfter_le ( prefix_append _ _)
      _ ≤ pushed before inserted right := le_pushed rightAhead
  · rw [pushed, pushed, if_neg leftAhead, if_neg rightAhead]
    rw [not_lt, Prod.Lex.le_iff] at leftAhead rightAhead
    rw [Prod.Lex.lt_iff] at ahead
    split <;> split <;> rw [Prod.Lex.lt_iff] <;> simp only [ofLex_toLex, true_and] <;> omega

/-- The change of places when whole lines are put in front of a text. -/
def lowered (lines : ℤ) (place : ℤ ×ₗ ℤ) : ℤ ×ₗ ℤ := toLex ((ofLex place).1 + lines, (ofLex place).2)

theorem lowered_strictMono (lines : ℤ) : StrictMono (lowered lines) := by
  intro left right ahead
  rw [Prod.Lex.lt_iff] at ahead
  rw [lowered, lowered, Prod.Lex.lt_iff]
  simp only [ofLex_toLex]
  omega

theorem lowered_placeAfter {inserted : Text} (whole : inserted.lastLine = []) (more : Text) :
    lowered (inserted.count '\n') (placeAfter more) = placeAfter (inserted ++ more) := by
  by_cases feed : '\n' ∈ more
  · rw [placeAfter_append_of_feed inserted feed, lowered, placeAfter]
    simp only [ofLex_toLex]
    congr 2
    ring
  · rw [placeAfter_append inserted feed, whole, lowered, placeAfter, count_eq_zero.mpr feed,
      Text.lastLine_of_no_feed feed]
    simp only [ofLex_toLex, length_nil]
    congr 2
    · push_cast
      ring
    · push_cast
      ring

/-! ## Words -/

/-- What a token of a text is, as far as its place goes. -/
def OnLine (list : List (Lexeme × Text)) : Prop :=
  ∀ kind value, (.token kind, value) ∈ list → value ≠ [] ∧ '\n' ∉ value

theorem onLine_pieces (text : Text) : OnLine (pieces text) := fun _ _ member =>
  ⟨(isToken_of_mem_pieces member).ne_nil, (isToken_of_mem_pieces member).no_feed⟩

theorem first_tokenAfter (file : String) (before : Text) (kind : TokenKind) (value : Text) :
    (tokenAfter file before kind value).span.first = placeAfter before := by
  rw [placeAfter, tokenAfter, Place.spanTo, Span.first, Place.start_after]
  push_cast
  rfl

theorem last_tokenAfter (file : String) (before : Text) (kind : TokenKind) (some : value ≠ []) (none : '\n' ∉ value) :
    (tokenAfter file before kind value).span.last = placeAfter (before ++ value.dropLast) := by
  have positive := length_pos_iff.mpr some
  rw [placeAfter_append before fun member => none (mem_of_mem_dropLast member), tokenAfter,
    spanTo_tokenAfter some none, Span.last, length_dropLast]
  congr 2
  push_cast [positive]
  ring

section Behind

variable {shift : ℤ ×ₗ ℤ → ℤ ×ₗ ℤ}
  (shifts : ∀ more, shift (placeAfter (before ++ more)) = placeAfter (before ++ inserted ++ more))
include shifts

theorem along_tokenAfter (file : String) (more : Text) (kind : TokenKind) (some : value ≠ []) (none : '\n' ∉ value) :
    (tokenAfter file (before ++ more) kind value).along shift =
      tokenAfter file (before ++ inserted ++ more) kind value := by
  have spans : (tokenAfter file (before ++ more) kind value).span.along shift =
      (tokenAfter file (before ++ inserted ++ more) kind value).span := by
    refine Span.ext_places rfl ?_ ?_
    · rw [Span.first_along, first_tokenAfter, first_tokenAfter, shifts]
    · rw [Span.last_along, last_tokenAfter _ _ _ some none, last_tokenAfter _ _ _ some none, append_assoc,
        shifts, append_assoc _ more]
  rw [Token.along, spans]
  rfl

theorem along_wordsAt (file : String) (more : Text) {list : List (Lexeme × Text)} (onLine : OnLine list) :
    (wordsAt file (before ++ more) list).map (·.along shift) = wordsAt file (before ++ inserted ++ more) list := by
  induction list generalizing more with
  | nil => rfl
  | cons piece _ ih =>
    have rest := ih (more ++ piece.2) fun kind value member => onLine kind value (mem_cons_of_mem _ member)
    rw [← append_assoc, ← append_assoc] at rest
    obtain ⟨lexeme, value⟩ := piece
    cases lexeme with
    | token kind =>
      obtain ⟨some, none⟩ := onLine kind value mem_cons_self
      rw [wordsAt, wordsAt, map_cons, along_tokenAfter shifts file more kind some none, rest]
    | _ => exact rest

end Behind

theorem along_tokenAfter_ahead (file : String) {ahead : Text} (kind : TokenKind) (some : value ≠ [])
    (none : '\n' ∉ value) (within : ahead ++ value <+: before) :
    (tokenAfter file ahead kind value).along (pushed before inserted) = tokenAfter file ahead kind value := by
  have lastAhead : placeAfter (ahead ++ value.dropLast) < placeAfter before := by
    refine lt_of_lt_of_le (placeAfter_lt ?_ ?_) (placeAfter_le within)
    · exact (prefix_append_right_inj _).mpr ( dropLast_prefix value)
    · intro same
      have lengths := congrArg List.length (append_cancel_left same)
      have positive := length_pos_iff.mpr some
      rw [length_dropLast] at lengths
      omega
  have firstAhead : placeAfter ahead < placeAfter before :=
    lt_of_le_of_lt (placeAfter_le ( prefix_append _ _)) lastAhead
  have spans : (tokenAfter file ahead kind value).span.along (pushed before inserted) =
      (tokenAfter file ahead kind value).span := by
    refine Span.ext_places rfl ?_ ?_
    · rw [Span.first_along, first_tokenAfter, pushed_of_lt firstAhead]
    · rw [Span.last_along, last_tokenAfter _ _ _ some none, pushed_of_lt lastAhead]
  rw [Token.along, spans]

theorem along_wordsAt_ahead (file : String) {ahead : Text} {list : List (Lexeme × Text)}
    (onLine : OnLine list) (within : ahead ++ written list <+: before) :
    (wordsAt file ahead list).map (·.along (pushed before inserted)) = wordsAt file ahead list := by
  induction list generalizing ahead with
  | nil => rfl
  | cons piece _ ih =>
    rw [written_cons, ← append_assoc] at within
    have rest := ih (fun kind value member => onLine kind value (mem_cons_of_mem _ member)) within
    obtain ⟨lexeme, value⟩ := piece
    cases lexeme with
    | token kind =>
      obtain ⟨some, none⟩ := onLine kind value mem_cons_self
      have own : ahead ++ value <+: before := ( prefix_append _ _).trans within
      rw [wordsAt, map_cons, along_tokenAfter_ahead file kind some none own, rest]
    | _ => exact rest

/-- The words of a text after pieces were put in: the new ones stand between the old ones, which have moved. -/
theorem wordsAt_insert (file : String) {left right : List (Lexeme × Text)} (new : List (Lexeme × Text))
    (onLine : OnLine (left ++ right)) :
    wordsAt file [] (left ++ (new ++ right)) =
      (wordsAt file [] left).map (·.along (pushed (written left) (written new))) ++
        (wordsAt file (written left) new ++
          (wordsAt file (written left) right).map (·.along (pushed (written left) (written new)))) := by
  have before := @along_wordsAt_ahead (written left) (written new) file [] left
    (fun kind value member => onLine kind value (mem_append_left _ member)) prefix_rfl
  have behind := @along_wordsAt (written left) (written new) _ pushed_placeAfter file [] right
    fun kind value member => onLine kind value (mem_append_right _ member)
  rw [append_nil, append_nil] at behind
  rw [wordsAt_append, wordsAt_append, nil_append, before, behind]

end Lexis

open Lexis Grammar in
theorem CompUnit.exists_ofText {file : String} {text : Text} {list : List (Lexeme × Text)} {items : List Item}
    (cut : pieces text = list) (sound : ∀ piece ∈ list, Sound piece)
    (derived : TopLevel (wordsAt file [] list) items) (nearest : ∀ item ∈ items, item.NearestElse) :
    ∃ unit, CompUnit.ofText file text = .ok unit ∧ unit.items = items := by
  subst cut
  have scanned := (@scan_eq_ok_iff file text _).mpr ⟨sound, rfl⟩
  have plain := Fix.plain_wordsAt scanned
  have read := @CompUnit.ofTokens_of_program file _ (tokenAfter file text .endOfInput []) rfl plain items derived
    nearest
  exact ⟨_, (Fix.ofText_of_scan scanned).trans read, rfl⟩

end SysYTools
