import Mathlib
import SysYTools.Text.Pattern

/-!
Parts of texts of which only the fixed letters are known. A template has letters and gaps, and a gap is filled
with any text that has no space. Whether a part can stand in a filled template is found by trying all ways in
which the gaps can take up letters of the part, so it is a question about the template alone.
-/

namespace SysYTools

open List

variable {text part : Text} {c : Char}

namespace Text

theorem hasPart_eq_false_iff : text.hasPart part = false ↔ ¬ part <:+: text := by
  induction text with
  | nil => cases part <;> simp [hasPart]
  | cons _ _ ih =>
    rw [hasPart, Bool.or_eq_false_iff, ih, infix_cons_iff, not_or, ← isPrefixOf_iff_prefix, Bool.not_eq_true]

theorem hasPart_iff : text.hasPart part = true ↔ part <:+: text := by
  rw [← Bool.not_eq_false, hasPart_eq_false_iff, not_not]

theorem prefix_append_cons_iff {part : Text} {c : Char} (none : c ∉ part) (before after : Text) :
    part <+: before ++ c :: after ↔ part <+: before := by
  refine ⟨fun starts => ?_, fun starts => starts.trans (prefix_append _ _)⟩
  rcases prefix_or_prefix_of_prefix starts (prefix_append _ _) with short | long
  · exact short
  · obtain ⟨more, rfl⟩ := long
    rw [prefix_append_right_inj] at starts
    cases more with
    | nil => simp
    | cons =>
      obtain ⟨rfl, -⟩ := cons_prefix_cons.mp starts
      simp at none

theorem hasPart_append_cons (none : c ∉ part) (before after : Text) :
    hasPart (before ++ c :: after) part = (hasPart before part || hasPart after part) := by
  rw [Bool.eq_iff_iff, Bool.or_eq_true, hasPart_iff, hasPart_iff, hasPart_iff]
  induction before with
  | nil =>
    have start := @prefix_append_cons_iff part c none [] after
    rw [nil_append] at start ⊢
    rw [infix_cons_iff, start, prefix_nil, infix_nil]
  | cons _ _ ih =>
    rw [cons_append, infix_cons_iff, ih, ← cons_append, prefix_append_cons_iff none, infix_cons_iff, or_assoc]

theorem hasPart_append_run {run : Text} (nonempty : part ≠ [])
    (none : ∀ d ∈ c :: run, d ∉ part) (before after : Text) :
    hasPart (before ++ (c :: run ++ after)) part = (hasPart before part || hasPart after part) := by
  induction run generalizing before c with
  | nil => exact hasPart_append_cons (none c mem_cons_self) before after
  | cons _ _ ih =>
    obtain ⟨first, others⟩ := forall_mem_cons.mp none
    have empty : hasPart [] part = false := by
      rw [hasPart_eq_false_iff, infix_nil]
      exact nonempty
    have rest := ih others []
    rw [nil_append, empty, Bool.false_or] at rest
    rw [cons_append, hasPart_append_cons first, rest]

end Text

/-- Letters, and gaps for texts without spaces. -/
abbrev Template := List (Option Char)

variable {left right template : Template}

namespace Template

/-- The letters of a text. -/
def ofString (text : String) : Template := text.toList.map some

def gap : Template := [none]

/-- A text has the letters of a template, and texts without spaces in its gaps. -/
inductive Fills : Template → Text → Prop where
  | nil : Fills [] []
  | letter {c : Char} {template : Template} {text : Text} :
      Fills template text → Fills (some c :: template) (c :: text)
  | close {template : Template} {text : Text} : Fills template text → Fills (none :: template) text
  | fill {c : Char} {template : Template} {text : Text} :
      c ≠ ' ' → Fills (none :: template) text → Fills (none :: template) (c :: text)

theorem Fills.append {before after : Text} (fillsLeft : Fills left before)
    (fillsRight : Fills right after) : Fills (left ++ right) (before ++ after) := by
  induction fillsLeft with
  | nil => exact fillsRight
  | letter _ ih => exact .letter ih
  | close _ ih => exact .close ih
  | fill other _ ih => exact .fill other ih

theorem Fills.ofString (text : String) : Fills (Template.ofString text) text.toList := by
  rw [Template.ofString]
  induction text.toList with
  | nil => exact .nil
  | cons _ _ ih => exact .letter ih

theorem Fills.gap {text : Text} (solid : ' ' ∉ text) : Fills Template.gap text := by
  induction text with
  | nil => exact .close .nil
  | cons _ _ ih =>
    simp only [mem_cons, not_or] at solid
    exact .fill (Ne.symm solid.1) (ih solid.2)

theorem Fills.join {before after : String} (fillsLeft : Fills left before.toList)
    (fillsRight : Fills right after.toList) : Fills (left ++ right) (before ++ after).toList := by
  rw [String.toList_append]
  exact fillsLeft.append fillsRight

/-- What can be left of a part after a gap has taken up letters of it. -/
def leftovers : Text → List Text
  | [] => [[]]
  | c :: rest => (c :: rest) :: if c = ' ' then [] else leftovers rest

/-- Whether a filled template can start with a part, or end within it. -/
def mayStart : Template → Text → Bool
  | [], part => part.isEmpty
  | some c :: template, part =>
    match part with
    | [] => true
    | d :: rest => c == d && mayStart template rest
  | none :: template, part => (leftovers part).any (mayStart template)

/-- Whether a part can stand in a filled template. -/
def mayHold : Template → Text → Bool
  | [], part => part.isEmpty
  | piece :: template, part => mayStart (piece :: template) part || mayHold template part

theorem mayStart_nil (template : Template) : template.mayStart [] = true := by
  induction template with
  | nil => rfl
  | cons piece _ ih =>
    cases piece with
    | none => simp [mayStart, leftovers, ih]
    | some => rfl

theorem self_mem_leftovers (part : Text) : part ∈ leftovers part := by
  cases part with
  | nil | cons => exact mem_cons_self

theorem Fills.mayStart (fills : Fills template text) (starts : part <+: text) : template.mayStart part = true := by
  induction fills generalizing part with
  | nil =>
    rw [prefix_nil.mp starts]
    rfl
  | letter _ ih =>
    cases part with
    | nil => exact mayStart_nil _
    | cons =>
      obtain ⟨rfl, follows⟩ := cons_prefix_cons.mp starts
      simp [Template.mayStart, ih follows]
  | close _ ih => exact any_eq_true.mpr ⟨part, self_mem_leftovers part, ih starts⟩
  | fill other _ ih =>
    cases part with
    | nil => exact mayStart_nil _
    | cons =>
      obtain ⟨rfl, follows⟩ := cons_prefix_cons.mp starts
      obtain ⟨left, member, found⟩ := any_eq_true.mp (ih follows)
      refine any_eq_true.mpr ⟨left, ?_, found⟩
      rw [leftovers, if_neg other]
      exact mem_cons_of_mem _ member

theorem Fills.mayHold (fills : Fills template text)
    (found : text.hasPart part = true) : template.mayHold part = true := by
  rw [Text.hasPart_iff] at found
  induction fills with
  | nil => simpa [Template.mayHold] using found
  | letter fills ih =>
    rw [Template.mayHold, Bool.or_eq_true]
    rcases infix_cons_iff.mp found with starts | later
    · exact .inl ((Fills.letter fills).mayStart starts)
    · exact .inr (ih later)
  | close _ ih =>
    rw [Template.mayHold, Bool.or_eq_true]
    exact .inr (ih found)
  | fill other fills ih =>
    rcases infix_cons_iff.mp found with starts | later
    · rw [Template.mayHold, Bool.or_eq_true]
      exact .inl ((Fills.fill other fills).mayStart starts)
    · exact ih later

theorem Fills.hasPart_eq_false (fills : Fills template text)
    (never : template.mayHold part = false) : text.hasPart part = false := by
  by_contra found
  rw [Bool.not_eq_false] at found
  rw [fills.mayHold found] at never
  cases never

end Template

end SysYTools
