import SysYTools.Document.Edit
import SysYTools.Proofs.Position

/-!
Edits of a text. Edits whose ranges stand apart replace them all at once: what stands between them is kept, and
none of them moves another. They may touch, and one of two edits at a place may be an insertion. The list may
give them in any order, since they are made from the last to the first.
-/

namespace SysYTools.Edit

open List

theorem applyAll_insert (before added after : Text) :
    applyAll (before ++ after) [.insert ⟨before.count '\n', before.lastLine.length⟩ added] =
      before ++ added ++ after := by
  have place := Document.offsetAt_after "" (prefix_append before after)
  simp [applyAll, toSplice, insert, Range.point, place, Text.splice]

/-! ## Splices in order -/

namespace Splice

theorem before_iff {left right : Splice} : left.before right = true ↔
    right.start < left.start ∨ right.start = left.start ∧ right.stop ≤ left.stop := by
  simp [before]

theorem before_trans (first second third : Splice) (high : first.before second = true)
    (low : second.before third = true) : first.before third = true := by
  rw [before_iff] at *
  omega

theorem before_total (first second : Splice) : (first.before second || second.before first) = true := by
  rw [Bool.or_eq_true, before_iff, before_iff]
  omega

/-- The ranges of two splices share no character, and they are not two insertions at one place. -/
def Apart (left right : Splice) : Prop :=
  (left.stop ≤ right.start ∨ right.stop ≤ left.start) ∧
    ¬ (left.start = left.stop ∧ right.start = right.stop ∧ left.start = right.start)

instance (left right : Splice) : Decidable (left.Apart right) := inferInstanceAs (Decidable (_ ∧ _))

instance : Std.Symm Apart where
  symm left right apart := by
    unfold Apart at *
    omega

theorem Apart.stop_le {left right : Splice} (apart : left.Apart right) (ordered : left.start ≤ left.stop)
    (ordered' : right.start ≤ right.stop) (before : right.before left = true) : left.stop ≤ right.start := by
  rw [before_iff] at before
  unfold Apart at apart
  omega

theorem eq_of_before {splices : List Splice} (apart : splices.Pairwise Apart)
    (ordered : ∀ splice ∈ splices, splice.start ≤ splice.stop) {first second : Splice}
    (isFirst : first ∈ splices) (isSecond : second ∈ splices) (before : first.before second = true)
    (after : second.before first = true) : first = second := by
  by_contra different
  have parted : first.Apart second := apart.forall isFirst isSecond different
  have size := ordered first isFirst
  rw [before_iff] at before after
  unfold Apart at parted
  omega

/-- The text from an offset on, with the new texts of splices in their places. -/
def fillFrom (text : Text) (offset : Nat) : List Splice → Text
  | [] => text.drop offset
  | splice :: rest => text.slice offset splice.start ++ splice.newText ++ fillFrom text splice.stop rest

theorem foldl_reverse {text : Text} {splices : List Splice}
    (sorted : splices.Pairwise fun left right => left.stop ≤ right.start)
    (ordered : ∀ splice ∈ splices, splice.start ≤ splice.stop ∧ splice.stop ≤ text.length) {offset : Nat}
    (ahead : ∀ splice ∈ splices, offset ≤ splice.start) :
    splices.reverse.foldl (fun text splice => text.splice splice.start splice.stop splice.newText) text =
      text.take offset ++ fillFrom text offset splices := by
  induction splices generalizing offset with
  | nil => simp [fillFrom]
  | cons splice _ ih =>
    obtain ⟨later, sorted⟩ := pairwise_cons.mp sorted
    obtain ⟨⟨ordered, within⟩, others⟩ := forall_mem_cons.mp ordered
    have front := ahead splice mem_cons_self
    -- The later splices are made first, and they leave the text up to the stop of this one.
    have kept : (text.take splice.stop).length = splice.stop := length_take_of_le within
    rw [reverse_cons, foldl_append, foldl_cons, foldl_nil, ih sorted others later,
      Text.splice, drop_left' kept, take_append_of_le_length (by omega), take_take,
      Nat.min_eq_left ordered, fillFrom, Text.slice]
    have joined : text.take offset ++ (text.drop offset).take (splice.start - offset) = text.take splice.start := by
      rw [← take_add, Nat.add_sub_cancel' front]
    rw [← joined]
    simp only [append_assoc]

/-- Splices that stand apart have an order in which each of them ends before the next one starts. -/
theorem exists_sorted {splices : List Splice} (ordered : ∀ splice ∈ splices, splice.start ≤ splice.stop)
    (apart : splices.Pairwise Apart) :
    ∃ sorted : List Splice, sorted.Perm splices ∧ sorted.Pairwise fun left right => left.stop ≤ right.start := by
  have perm := (reverse_perm _).trans (mergeSort_perm splices before)
  have descending := pairwise_mergeSort before_trans before_total splices
  have parted := perm.symm.pairwise apart fun {left right} => Std.Symm.symm left right
  refine ⟨_, perm, ((pairwise_reverse.mpr descending).and parted).imp_of_mem ?_⟩
  rintro left right isLeft isRight ⟨before, apart⟩
  exact apart.stop_le (ordered left (perm.mem_iff.mp isLeft)) (ordered right (perm.mem_iff.mp isRight)) before

end Splice

/-- Edits that stand apart are made all at once, in whatever order they are given. -/
theorem applyAll_eq_fillFrom {text : Text} {edits : List Edit} {splices : List Splice}
    (perm : (edits.map (toSplice { uri := "", text })).Perm splices)
    (ordered : ∀ splice ∈ splices, splice.start ≤ splice.stop) (apart : splices.Pairwise Splice.Apart)
    (sorted : splices.Pairwise fun left right => left.stop ≤ right.start) :
    applyAll text edits = Splice.fillFrom text 0 splices := by
  have descending : splices.reverse.Pairwise fun left right => Splice.before left right = true := by
    refine pairwise_reverse.mpr (sorted.imp_of_mem fun {left right} isLeft isRight stops => ?_)
    have size := ordered left isLeft
    have size' := ordered right isRight
    rw [Splice.before_iff]
    omega
  have made : (edits.map (toSplice { uri := "", text })).mergeSort Splice.before = splices.reverse := by
    have mergedPerm := (mergeSort_perm (edits.map (toSplice { uri := "", text })) Splice.before).trans perm
    refine List.Perm.eq_of_pairwise ?_ (pairwise_mergeSort Splice.before_trans Splice.before_total _) descending
      (mergedPerm.trans (reverse_perm splices).symm)
    intro first second isFirst isSecond
    exact Splice.eq_of_before apart ordered (mergedPerm.mem_iff.mp isFirst) (mem_reverse.mp isSecond)
  have within : ∀ splice ∈ splices, splice.start ≤ splice.stop ∧ splice.stop ≤ text.length := by
    intro splice member
    obtain ⟨_, -, rfl⟩ := mem_map.mp (perm.mem_iff.mpr member)
    exact ⟨ordered _ member, Document.offsetAt_le_length _ _⟩
  have filled := @Splice.foldl_reverse text splices sorted within 0 fun _ _ => Nat.zero_le _
  rw [take_zero, nil_append] at filled
  rw [applyAll, made, filled]

/-! ## Texts that are put together from parts -/

/-- A text from an offset on, some splices in it from left to right, and what they make of it. -/
inductive Substitutes : Nat → Text → List Splice → Text → Prop where
  | keep {offset : Nat} {text : Text} : Substitutes offset text [] text
  | replace {offset : Nat} {kept old rest new : Text} {splice : Splice} {splices : List Splice} :
      splice.start = offset + kept.length → splice.stop = splice.start + old.length → old ≠ [] →
      Substitutes splice.stop rest splices new →
      Substitutes offset (kept ++ old ++ rest) (splice :: splices) (kept ++ splice.newText ++ new)

namespace Substitutes

variable {offset : Nat} {text new : Text} {splices : List Splice}

theorem prepend (front : Text) (substitutes : Substitutes (offset + front.length) text splices new) :
    Substitutes offset (front ++ text) splices (front ++ new) := by
  generalize start : offset + front.length = place at substitutes
  cases substitutes with
  | keep => exact .keep
  | @replace _ kept old rest new splice splices starts stops some after =>
    have starts' : splice.start = offset + (front ++ kept).length := by
      rw [starts, ← start, length_append]
      omega
    have replaced := Substitutes.replace starts' stops some after
    simpa only [append_assoc] using replaced

section

variable (substitutes : Substitutes offset text splices new)
include substitutes

theorem start_ge : ∀ splice ∈ splices, offset ≤ splice.start ∧ splice.start < splice.stop := by
  induction substitutes with
  | keep => simp
  | replace _ _ some _ ih =>
    have size := length_pos_iff.mpr some
    refine forall_mem_cons.mpr ⟨by omega, fun splice member => ?_⟩
    have later := ih splice member
    omega

theorem sorted : splices.Pairwise fun left right => left.stop ≤ right.start := by
  induction substitutes with
  | keep => exact .nil
  | replace _ _ _ after ih => exact .cons (fun later member => (after.start_ge later member).1) ih

theorem fillFrom_eq (before : Text)
    (length : before.length = offset) : Splice.fillFrom (before ++ text) offset splices = new := by
  induction substitutes generalizing before with
  | keep => rw [Splice.fillFrom, drop_left' length]
  | @replace offset kept old rest new splice splices starts stops _ _ ih =>
    have size : (before ++ kept ++ old).length = splice.stop := by
      simp only [length_append]
      omega
    have filled := ih (before ++ kept ++ old) size
    have front : Text.slice (before ++ (kept ++ old ++ rest)) offset splice.start = kept := by
      rw [Text.slice, drop_left' length, append_assoc]
      exact take_left' (by omega)
    rw [Splice.fillFrom, front]
    simp only [append_assoc] at filled ⊢
    rw [filled]

end

end Substitutes

theorem applyAll_of_substitutes {text new : Text} {edits : List Edit}
    (substitutes : Substitutes 0 text (edits.map (toSplice { uri := "", text })) new) :
    applyAll text edits = new := by
  have ordered := fun splice member => Nat.le_of_lt (substitutes.start_ge splice member).2
  have apart : (edits.map (toSplice { uri := "", text })).Pairwise Splice.Apart := by
    refine substitutes.sorted.imp_of_mem fun {left right} isLeft _ stops => ⟨.inl stops, ?_⟩
    have size := (substitutes.start_ge left isLeft).2
    omega
  rw [applyAll_eq_fillFrom (.refl _) ordered apart substitutes.sorted]
  exact substitutes.fillFrom_eq [] rfl

/-! ## All edits at once -/

/-- Making edits is simultaneous substitution. If the ranges of edits stand apart, the edits have an order in the
text in which each of them ends before the next one starts, and the result is the text between them with the new
texts in their places. Any order of the list has this result. -/
theorem applyAll_substitutes (text : Text) (edits : List Edit)
    (ordered : ∀ splice ∈ edits.map (toSplice { uri := "", text }), splice.start ≤ splice.stop)
    (apart : (edits.map (toSplice { uri := "", text })).Pairwise Splice.Apart) :
    ∃ splices : List Splice, splices.Perm (edits.map (toSplice { uri := "", text })) ∧
      (splices.Pairwise fun left right => left.stop ≤ right.start) ∧
      ∀ edits' : List Edit, edits'.Perm edits → applyAll text edits' = Splice.fillFrom text 0 splices := by
  obtain ⟨splices, perm, sorted⟩ := Splice.exists_sorted ordered apart
  refine ⟨splices, perm, sorted, fun edits' reordered => ?_⟩
  refine applyAll_eq_fillFrom ((reordered.map _).trans perm.symm) ?_ ?_ sorted
  · exact fun splice member => ordered splice (perm.mem_iff.mp member)
  · exact perm.symm.pairwise apart fun {left right} => Std.Symm.symm left right

/-- Two insertions around a replacement that they touch, and an edit behind the end of a line: given from the last
to the first and from the first to the last they have the same result. -/
theorem applyAll_substitutes_touching :
    ∃ edits : List Edit,
      (∀ splice ∈ edits.map (toSplice { uri := "", text := "ab\nc".toList }), splice.start ≤ splice.stop) ∧
      (edits.map (toSplice { uri := "", text := "ab\nc".toList })).Pairwise Splice.Apart ∧
      applyAll "ab\nc".toList edits = "(x)!\nc".toList ∧
      applyAll "ab\nc".toList edits.reverse = "(x)!\nc".toList := by
  let edits : List Edit := [⟨⟨⟨0, 0⟩, ⟨0, 1⟩⟩, ['x']⟩, .insert ⟨0, 0⟩ ['('], .insert ⟨0, 1⟩ [')'],
    ⟨⟨⟨0, 1⟩, ⟨0, 9⟩⟩, ['!']⟩]
  have ordered : ∀ splice ∈ edits.map (toSplice { uri := "", text := "ab\nc".toList }),
      splice.start ≤ splice.stop := by decide
  have apart : (edits.map (toSplice { uri := "", text := "ab\nc".toList })).Pairwise Splice.Apart := by decide
  obtain ⟨_, -, -, made⟩ := applyAll_substitutes _ edits ordered apart
  have given : applyAll "ab\nc".toList edits = "(x)!\nc".toList := by cbv
  refine ⟨edits, ordered, apart, given, ?_⟩
  rw [made _ edits.reverse_perm, ← made edits (.refl _), given]

end SysYTools.Edit
