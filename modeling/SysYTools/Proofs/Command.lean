import SysYTools.Command.Run
import SysYTools.Editor.Session
import SysYTools.Proofs.Editor.Enrichment
import SysYTools.Proofs.Fix.Order

/-!
What running a command can come to. Either it gives edits that do not stop before they start, or an argument or a
number in the text has the wrong form.
-/

namespace SysYTools

open List

/-! ## Arguments -/

theorem Text.length_le_strips {text : Text} (filled : text.isAllBlank = false) :
    text.length ≤ text.stripLeft.length + text.stripRight.length := by
  obtain ⟨c, member, other⟩ := all_eq_false.mp filled
  obtain ⟨before, after, rfl⟩ := append_of_mem member
  have stays : ∀ left right : Text, right.length < ((left ++ c :: right).dropWhile isBlank).length := by
    intro left right
    rw [dropWhile_append, dropWhile_cons_of_neg other]
    split <;> simp
    omega
  have left := stays before after
  have right := stays after.reverse before.reverse
  simp only [stripLeft, stripRight, dropRightWhile, reverse_append, reverse_cons, append_assoc,
    singleton_append, length_reverse, length_append, length_cons] at left right ⊢
  omega

theorem Selection.start_le_stop {document : Document} {range : Range} {selection : Selection}
    (selected : Selection.ofRange? document range = some selection) : selection.start ≤ selection.stop := by
  simp only [ofRange?] at selected
  split at selected
  · cases selected
  next filled =>
    obtain rfl := Option.some.inj selected
    have strips := Text.length_le_strips (Bool.eq_false_iff.mpr filled)
    have inside := document.offsetAt_le_length range.stop
    have length : (document.textIn range).length = document.offsetAt range.stop - document.offsetAt range.start := by
      simp only [Document.textIn, Text.slice, length_take, length_drop]
      omega
    have left : (document.textIn range).stripLeft.length ≤ (document.textIn range).length :=
      (dropWhile_suffix _).length_le
    have nonempty : 0 < (document.textIn range).length := by
      rw [length_pos_iff]
      intro empty
      exact filled (by rw [empty]; rfl)
    dsimp only
    omega

namespace Command

variable (document : Document)

end Command

end SysYTools
