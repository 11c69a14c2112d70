import SysYTools.Fix.Flow
import SysYTools.Proofs.Repair.Heads
import SysYTools.Proofs.Text.Search

/-!
The fix for an empty return. It looks for the keyword and a semicolon on the line where the notice starts, and gives a
value to the first return that is written there without one.
-/

namespace SysYTools

open List

theorem Edit.applyAll_replace (front old new back : Text) :
    applyAll (front ++ old ++ back) [⟨⟨⟨front.count '\n', front.lastLine.length⟩,
        ⟨(front ++ old).count '\n', (front ++ old).lastLine.length⟩⟩, new⟩] = front ++ new ++ back := by
  have start := Document.offsetAt_after "" (show front <+: front ++ old ++ back by simp)
  have stop := Document.offsetAt_after "" (prefix_append (front ++ old) back)
  simp only [applyAll, toSplice, map_cons, map_nil, mergeSort_singleton, foldl_cons,
    foldl_nil, start, stop, Text.splice]
  rw [drop_left, append_assoc front old back, take_left]

namespace Fix

/-! ## Empty returns in a line -/

variable {after before gap line : Text} {request : Request}

/-- A return without a value is written in a line, behind a text that does not end in a word. Only white space stands
between the keyword and the semicolon. -/
structure EmptyReturn (line before gap after : Text) : Prop where
  split : line = before ++ ("return".toList ++ (gap ++ ';' :: after))
  blank : ∀ c ∈ gap, isBlank c = true
  starts : before.getLast?.any isWordChar = false

theorem readEmptyReturn_eq_some {text : Text} {result : Unit × Text} (found : readEmptyReturn text = some result) :
    ∃ gap, (∀ c ∈ gap, isBlank c = true) ∧ text = "return".toList ++ (gap ++ ';' :: result.2) := by
  unfold readEmptyReturn at found
  obtain ⟨_, isKeyword, found⟩ := Option.bind_eq_some_iff.mp found
  obtain ⟨after, isMark, found⟩ := Option.bind_eq_some_iff.mp found
  obtain rfl : ((), after) = result := Option.some.inj found
  obtain ⟨gap, rfl, blank⟩ := Text.readMark_eq_some isMark
  exact ⟨gap, blank, Text.readExactly_eq_some isKeyword⟩

theorem readEmptyReturn_append (blank : ∀ c ∈ gap, isBlank c = true) :
    readEmptyReturn ("return".toList ++ (gap ++ ';' :: after)) = some ((), after) := by
  unfold readEmptyReturn
  rw [Text.readExactly_append]
  simp [Text.readMark_append blank (show isBlank ';' = false by decide)]

theorem EmptyReturn.readsAt (empty : EmptyReturn line before gap after) :
    Text.ReadsAt readEmptyReturn none line before ("return".toList ++ (gap ++ ';' :: after)) ((), after) := by
  refine ⟨empty.split, ?_, readEmptyReturn_append empty.blank⟩
  rw [Option.or_none, isWordBoundary, empty.starts]
  simp [show isWordChar 'r' = true by decide]

theorem exists_emptyReturn_of_readsAt {front back : Text} {result : Unit × Text}
    (reads : Text.ReadsAt readEmptyReturn none line front back result) :
    ∃ gap, EmptyReturn line front gap result.2 := by
  obtain ⟨gap, blank, rfl⟩ := readEmptyReturn_eq_some reads.found
  refine ⟨gap, reads.split, blank, ?_⟩
  have boundary := reads.boundary
  have word : ("return".toList ++ (gap ++ ';' :: result.2)).head?.any isWordChar = true := by
    simp [show isWordChar 'r' = true by decide]
  rw [Option.or_none, isWordBoundary, word] at boundary
  simpa using boundary

theorem EmptyReturn.exists_first (empty : EmptyReturn line before gap after) :
    ∃ before gap after, EmptyReturn line before gap after ∧
      ∀ front inner back, EmptyReturn line front inner back → before.length ≤ front.length := by
  induction size : before.length using Nat.strong_induction_on generalizing before gap after with
  | _ n ih =>
    by_cases first : ∀ front inner back, EmptyReturn line front inner back → before.length ≤ front.length
    · exact ⟨before, gap, after, empty, first⟩
    · push Not at first
      obtain ⟨front, _, _, earlier, shorter⟩ := first
      exact ih front.length (size ▸ shorter) earlier rfl

/-! ## The edit -/

theorem fillReturn_of_missing
    (missing : ∀ before gap after, ¬ EmptyReturn (request.document.line request.startLine) before gap after) :
    fillReturn request = .ok none := by
  have none : (request.document.line request.startLine).occurrences readEmptyReturn 0 = [] := by
    refine Text.occurrencesFrom_eq_nil fun front back result reads => ?_
    obtain ⟨_, empty⟩ := exists_emptyReturn_of_readsAt reads
    exact missing _ _ _ empty
  rw [fillReturn, none]
  rfl

theorem fillReturn_of_first (empty : EmptyReturn (request.document.line request.startLine) before gap after)
    (first : ∀ front inner back, EmptyReturn (request.document.line request.startLine) front inner back →
      before.length ≤ front.length) :
    fillReturn request =
      (Range.ofInts request.startLine before.length request.startLine (before.length + gap.length + 7 : Nat)).map
        fun range => some (request.replace s!"Return '{Literal.placeholder (returnType request)}'" range
          s!"return {Literal.placeholder (returnType request)};") := by
  have size : ("return".toList ++ (gap ++ ';' :: after)).length - after.length = gap.length + 7 := by
    simp
    omega
  have found : ((request.document.line request.startLine).occurrences readEmptyReturn 0).head? =
      some ⟨before.length, before.length + gap.length + 7, ()⟩ := by
    have here := @Text.head?_occurrencesFrom _ _ _ 0 0 _ _ _ _ _ empty.readsAt (by simp) ?_ le_rfl
    · rwa [size, Nat.zero_add, ← Nat.add_assoc] at here
    · intro front back result reads
      obtain ⟨_, empty⟩ := exists_emptyReturn_of_readsAt reads
      exact first _ _ _ empty
  rw [fillReturn, found]
  rfl

theorem EmptyReturn.exists_cut {document : Document} {number : Nat}
    (empty : EmptyReturn (document.line number) before gap after) (new : Text) :
    ∃ above below, above.count '\n' = number ∧ above.lastLine = [] ∧
      document.text = above ++ (before ++ ("return".toList ++ (gap ++ ';' :: after))) ++ below ∧
      Edit.applyAll document.text [⟨⟨⟨number, before.length⟩, ⟨number, before.length + gap.length + 7⟩⟩, new⟩] =
        above ++ (before ++ (new ++ after)) ++ below := by
  have present : number < document.lines.length := by
    by_contra beyond
    have none : document.line number = [] := by
      rw [Document.line, getElem?_eq_none (by omega)]
      rfl
    have split := empty.split
    rw [none] at split
    simp at split
  obtain ⟨above, below, split, count, last, -, inner, -⟩ :=
    Text.exists_line_cut document.text (document.getElem?_lines present)
  rw [empty.split] at split inner
  have plain : '\n' ∉ before ∧ '\n' ∉ "return".toList ++ (gap ++ [';']) := by
    simp only [mem_append, mem_cons, not_or] at inner ⊢
    tauto
  have start : (above ++ before).lastLine.length = before.length := by
    rw [Text.lastLine_append_of_no_feed above plain.1, last, nil_append]
  have stop : (above ++ before ++ ("return".toList ++ (gap ++ [';']))).lastLine.length =
      before.length + gap.length + 7 := by
    rw [Text.lastLine_append_of_no_feed _ plain.2, length_append, start]
    simp
    omega
  have replaced := Edit.applyAll_replace (above ++ before) ("return".toList ++ (gap ++ [';'])) new (after ++ below)
  rw [start, stop, count_append, count_append, count_append, count, count_eq_zero.mpr plain.1,
    count_eq_zero.mpr plain.2] at replaced
  refine ⟨above, below, count, last, split, ?_⟩
  rw [split]
  simpa using replaced

/-- The fix gives a value to the first return of the line that is written without one, and to none if there is none.
The rest of the text stays as it is. -/
theorem fillReturn_fills_first (request : Request) :
    (fillReturn request = .ok none ↔
      ∀ before gap after, ¬ EmptyReturn (request.document.line request.startLine) before gap after) ∧
    ∀ before gap after, EmptyReturn (request.document.line request.startLine) before gap after →
      (∀ front inner back, EmptyReturn (request.document.line request.startLine) front inner back →
        before.length ≤ front.length) →
      ∃ (title : String) (edit : Edit) (above below : Text),
        edit.range = ⟨⟨request.startLine, before.length⟩, ⟨request.startLine, before.length + gap.length + 7⟩⟩ ∧
        edit.newText = s!"return {Literal.placeholder (returnType request)};".toList ∧
        ((request.startLine : Int) ≤ Coordinate.limit → (before.length + gap.length + 7 : Int) ≤ Coordinate.limit →
          fillReturn request = .ok (some (request.edits title [edit]))) ∧
        above.count '\n' = request.startLine ∧ above.lastLine = [] ∧
        request.document.text = above ++ (before ++ ("return".toList ++ (gap ++ ';' :: after))) ++ below ∧
        Edit.applyAll request.document.text [edit] = above ++ (before ++ (edit.newText ++ after)) ++ below := by
  refine ⟨⟨fun unfilled before gap after empty => ?_, fillReturn_of_missing⟩, fun before gap after empty first => ?_⟩
  · obtain ⟨before, gap, _, empty, first⟩ := empty.exists_first
    rw [fillReturn_of_first empty first] at unfilled
    generalize Range.ofInts _ _ _ _ = ranged at unfilled
    cases ranged <;> simp [Except.map] at unfilled
  · obtain ⟨above, below, cut⟩ := empty.exists_cut s!"return {Literal.placeholder (returnType request)};".toList
    refine ⟨s!"Return '{Literal.placeholder (returnType request)}'", ⟨_, _⟩, above, below, rfl, rfl,
      fun low high => ?_, cut⟩
    have ranged : Range.ofInts request.startLine before.length request.startLine
        (before.length + gap.length + 7 : Nat) =
          .ok ⟨⟨request.startLine, before.length⟩, ⟨request.startLine, before.length + gap.length + 7⟩⟩ := by
      rw [Range.ofInts_eq_ok_iff, Position.ofInts_eq_ok_iff, Position.ofInts_eq_ok_iff]
      exact ⟨⟨⟨rfl, low⟩, rfl, by omega⟩, ⟨rfl, low⟩, rfl, by omega⟩
    rw [fillReturn_of_first empty first, ranged]
    rfl

/-- The notice is about the second return of this line, and the fix gives a value to the first one. -/
theorem fillReturn_fills_first_branch :
    ∃ (request : Request) (title : String) (edit : Edit),
      request.document.text = "int f(int x) \x7b\n    if (x) return; return;\n\x7d".toList ∧
      request.range = ⟨⟨1, 19⟩, ⟨1, 26⟩⟩ ∧ fillReturn request = .ok (some (request.edits title [edit])) ∧
      edit.range = ⟨⟨1, 11⟩, ⟨1, 18⟩⟩ ∧ Edit.applyAll request.document.text [edit] =
        "int f(int x) \x7b\n    if (x) return 0; return;\n\x7d".toList := by
  let request : Request :=
    { document := ⟨"t.sy", "int f(int x) \x7b\n    if (x) return; return;\n\x7d".toList⟩
      notice := ⟨⟨⟨1, 19⟩, ⟨1, 26⟩⟩, none, none, none, "", .null⟩
      number := 0 }
  have isLine : request.document.line request.startLine = "    if (x) return; return;".toList := by decide +kernel
  have empty : EmptyReturn (request.document.line request.startLine) "    if (x) ".toList [] " return;".toList := by
    rw [isLine]
    exact ⟨by decide +kernel, by simp, by decide +kernel⟩
  have first : ∀ front inner back, EmptyReturn (request.document.line request.startLine) front inner back →
      "    if (x) ".toList.length ≤ front.length := by
    intro front inner back other
    by_contra short
    have starts : "return".toList <+: (request.document.line request.startLine).drop front.length := by
      rw [other.split, drop_left]
      exact prefix_append _ _
    have never : ∀ size < 11, ¬ "return".toList <+: "    if (x) return; return;".toList.drop size := by decide +kernel
    rw [isLine] at starts
    exact never front.length (by simpa using short) starts
  obtain ⟨title, ⟨editRange, newText⟩, _, _, range, filling, filled, -⟩ :=
    (fillReturn_fills_first request).2 _ _ _ empty first
  obtain rfl : editRange = ⟨⟨1, 11⟩, ⟨1, 18⟩⟩ := range
  obtain rfl : newText = "return 0;".toList := filling.trans (by decide +kernel)
  exact ⟨request, title, _, rfl, rfl, filled (by decide +kernel) (by decide +kernel), rfl, by decide +kernel⟩

end Fix

end SysYTools
