import SysYTools.Proofs.Edit
import SysYTools.Proofs.Token.Signs
import SysYTools.Repair.Arrays

/-!
The repair of all arrays of a text, from left to right. Instead of offsets and edits there is the text that
is still to come and what becomes of it, with the character before it.
-/

namespace SysYTools

open List Lexis

variable {α : Type} {before : Option Char} {c : Char}
variable {after brace rest sign text : Text}

/-! ## Readers -/

namespace Text

theorem readMark_eq_some {mark : Char} (found : readMark mark text = some rest) :
    ∃ run, text = run ++ mark :: rest ∧ ∀ c ∈ run, isBlank c = true := by
  unfold readMark at found
  split at found
  · cases found
  next c others stripped =>
    split at found
    next same =>
      subst same
      obtain rfl : others = rest := Option.some.inj found
      obtain ⟨run, split, blank, -⟩ := stripLeft_eq stripped
      exact ⟨run, split, blank⟩
    · cases found

theorem readMark_append {mark : Char} {run rest : Text} (blank : ∀ c ∈ run, isBlank c = true)
    (other : isBlank mark = false) : readMark mark (run ++ mark :: rest) = some rest := by
  have stripped : stripLeft (run ++ mark :: rest) = mark :: rest := stripLeft_append blank (by simpa using other)
  simp [readMark, stripped]

theorem readName_eq_some {name : Text} (found : readName text = some (name, rest)) :
    text = name ++ rest ∧ (∀ c ∈ name, isWordChar c = true) ∧ ∃ c ∈ name.head?, isNameStart c = true := by
  cases text with
  | nil => cases found
  | cons c others =>
    simp only [readName] at found
    split at found
    next start =>
      obtain ⟨rfl, rfl⟩ := Prod.mk.inj (Option.some.inj found)
      have word : isWordChar c = true := isWordChar_of_isNameChar (by simp [Lexeme.isNameChar, start])
      refine ⟨by simp, forall_mem_cons.mpr ⟨word, takeWhile_all isWordChar others⟩, c, rfl, start⟩
    · cases found

theorem readSize_eq_some {digits : Text} (found : readSize text = some (digits, rest)) :
    ∃ outer left right, text = outer ++ '[' :: (left ++ digits ++ right ++ ']' :: rest) ∧
      (∀ c ∈ outer, isBlank c = true) ∧ (∀ c ∈ left ++ right, isBlank c = true) ∧ digits ≠ [] ∧
      ∀ c ∈ digits, isDecimalDigit c = true := by
  simp only [readSize, Option.bind_eq_bind, Option.bind_eq_some_iff, Prod.exists, Option.pure_def,
    Option.some.injEq, Prod.mk.injEq] at found
  obtain ⟨inside, opened, _, _, isRun, more, closed, rfl, rfl⟩ := found
  obtain ⟨outer, rfl, outerBlank⟩ := readMark_eq_some opened
  obtain ⟨right, rfl, rightBlank⟩ := readMark_eq_some closed
  simp only [readDigits] at isRun
  split at isRun
  · cases isRun
  next nonempty =>
    obtain ⟨rfl, after⟩ := Prod.mk.inj (Option.some.inj isRun)
    have inner : inside = inside.takeWhile isBlank ++ inside.stripLeft := ( takeWhile_append_dropWhile).symm
    have whole : inside.stripLeft = inside.stripLeft.takeWhile isDecimalDigit ++ (right ++ ']' :: more) := by
      rw [← after, takeWhile_append_dropWhile]
    refine ⟨outer, inside.takeWhile isBlank, right, ?_, outerBlank, ?_, ?_, takeWhile_all _ _⟩
    · rw [append_assoc, append_assoc, ← whole, ← inner]
    · intro c member
      rcases mem_append.mp member with member | member
      · exact takeWhile_all isBlank inside c member
      · exact rightBlank c member
    · simpa using nonempty

theorem skipBrackets_suffix (text : Text) : text.skipBrackets <:+ text := by
  fun_induction skipBrackets text with
  | case1 text inside opens c rest closes ih =>
    have inner : rest <:+ inside := ((suffix_cons c rest).trans (closes ▸ dropWhile_suffix _))
    have outer : inside <:+ text := (suffix_cons '[' inside).trans (opens ▸ dropWhile_suffix _)
    exact ih.trans (inner.trans outer)
  | case2 | case3 => exact suffix_rfl

/-! ## Offsets -/

theorem closeFrom_shift (mode : BracketMode) (stack : List Char) (index : Nat) (text : Text) :
    closeFrom mode stack index text = (closeFrom mode stack 0 text).map (index + ·) := by
  suffices shift : ∀ (start : Nat), closeFrom mode stack (index + start) text =
      (closeFrom mode stack start text).map (index + ·) from shift 0
  intro start
  fun_induction closeFrom mode stack start text with
  | case1 => simp [closeFrom]
  | case2 _ _ _ _ ih => simpa [closeFrom, Nat.add_assoc] using ih
  | case3 _ _ _ ih => simpa [closeFrom, Nat.add_assoc] using ih
  | case4 _ _ _ _ other ih =>
    rw [closeFrom, Nat.add_assoc]
    · exact ih
    · exact other
  | case5 _ _ _ ih => simpa [closeFrom, Nat.add_assoc] using ih
  | case6 _ _ _ ih => simpa [closeFrom, Nat.add_assoc] using ih
  | case7 _ _ _ _ line block _ step ih =>
    rw [closeFrom]
    · simp only [step, Nat.add_assoc]
      exact ih
    · exact line
    · exact block
  | case8 _ _ _ _ line block step =>
    rw [closeFrom]
    · simp [step]
    · exact line
    · exact block
  | case9 _ _ _ _ line block step =>
    rw [closeFrom]
    · simp [step]
    · exact line
    · exact block

theorem occurrencesFrom_append (read : Reader α) (before : Option Char) (index : Nat) (passed after : Text) :
    occurrencesFrom read before index (index + passed.length) (passed ++ after) =
      occurrencesFrom read (passed.getLast?.or before) (index + passed.length) (index + passed.length) after := by
  induction passed generalizing before index with
  | nil => rfl
  | cons c passed ih =>
    have early : ¬ index + (passed.length + 1) ≤ index := by omega
    have length : index + (passed.length + 1) = index + 1 + passed.length := by omega
    rw [cons_append, occurrencesFrom]
    simp only [length_cons, early, decide_false, Bool.false_and, Bool.false_eq_true, if_false]
    rw [length, ih]
    cases last : passed.getLast? with
    | none => simp [getLast?_eq_none_iff.mp last]
    | some => rw [getLast?_cons, last]; rfl

theorem occurrencesFrom_skip {read : Reader α} {index resume : Nat}
    (unread : isWordBoundary before (some c) = true → read (c :: rest) = none) :
    occurrencesFrom read before index resume (c :: rest) = occurrencesFrom read (some c) (index + 1) resume rest := by
  rw [occurrencesFrom]
  cases boundary : isWordBoundary before (some c) with
  | false => simp
  | true => simp [unread boundary]

end Text

namespace Repair

open Text

/-! ## One head -/

/-- How a head is written: white space may stand before its brackets, around its size, and before its
equals sign and its brace. -/
structure HeadForm (text : Text) (head : ArrayHead) (after outer left right tail sign brace : Text) : Prop where
  whole : text = head.name ++ outer ++ '[' :: (left ++ head.digits ++ right ++ ']' :: tail)
  further : tail = head.furtherDims ++ tail.skipBrackets
  stop : tail.skipBrackets = sign ++ '=' :: (brace ++ '\x7b' :: after)
  length : head.tailLength = tail.length - after.length
  blank : ∀ c ∈ outer ++ (left ++ right) ++ (sign ++ brace), isBlank c = true
  word : ∀ c ∈ head.name, isWordChar c = true
  start : ∃ c ∈ head.name.head?, isNameStart c = true
  some : head.digits ≠ []
  digits : ∀ c ∈ head.digits, isDecimalDigit c = true

theorem readArrayHead_eq_some {head : ArrayHead} (found : readArrayHead text = some (head, after)) :
    ∃ outer left right tail sign brace, HeadForm text head after outer left right tail sign brace := by
  simp only [readArrayHead, Option.bind_eq_bind, Option.bind_eq_some_iff, Prod.exists, Option.pure_def,
    Option.some.injEq, Prod.mk.injEq] at found
  obtain ⟨_, _, named, digits, tail, sized, _, signed, _, braced, rfl, rfl⟩ := found
  obtain ⟨rfl, word, start⟩ := readName_eq_some named
  obtain ⟨outer, left, right, rfl, outerBlank, innerBlank, nonempty, allDigits⟩ := readSize_eq_some sized
  obtain ⟨sign, stop, signBlank⟩ := readMark_eq_some signed
  obtain ⟨brace, rfl, braceBlank⟩ := readMark_eq_some braced
  refine ⟨outer, left, right, tail, sign, brace, ?_⟩
  refine { whole := ?_, further := ?_, stop, length := rfl, blank := ?_, word, start, some := nonempty,
           digits := allDigits }
  · simp only [append_assoc]
  · obtain ⟨front, split⟩ := skipBrackets_suffix tail
    have length : tail.length - tail.skipBrackets.length = front.length := by
      rw [← congrArg List.length split, length_append, Nat.add_sub_cancel]
    have taken : tail.take front.length = front := by rw [← congrArg (List.take front.length) split, take_left]
    simp only [length, taken, split]
  · intro c member
    rcases mem_append.mp member with member | member
    · rcases mem_append.mp member with member | member
      · exact outerBlank c member
      · exact innerBlank c member
    · rcases mem_append.mp member with member | member
      · exact signBlank c member
      · exact braceBlank c member

theorem HeadForm.unclosed {outer left right tail : Text} {head : ArrayHead}
    (form : HeadForm text head after outer left right tail sign brace) : ']' ∉ left ++ head.digits ++ right := by
  have blank := form.blank ']'
  intro member
  simp only [mem_append] at member blank
  rcases member with (member | member) | member
  · cases blank (.inl (.inr (.inl member)))
  · cases form.digits _ member
  · cases blank (.inl (.inr (.inr member)))

theorem split_until {front front' back back' : Text} (first : c ∉ front) (first' : c ∉ front')
    (same : front ++ c :: back = front' ++ c :: back') : front = front' ∧ back = back' := by
  rcases append_eq_append_iff.mp same with ⟨more, rfl, tail⟩ | ⟨more, rfl, tail⟩
  all_goals
    cases more with
    | nil => simp_all
    | cons =>
      obtain ⟨rfl, -⟩ := List.cons.inj tail
      simp at first first'

/-- A head at the start of a text. Its name, its size and its further dimensions are `old`, and `middle` goes up
to the brace. -/
structure HeadText (text : Text) (head : ArrayHead) (old middle after : Text) : Prop where
  read : readArrayHead text = some (head, after)
  whole : text = old ++ middle ++ after
  shape : ∃ outer left right, (∀ c ∈ outer ++ (left ++ right), isBlank c = true) ∧
    old = head.name ++ outer ++ '[' :: (left ++ head.digits ++ right ++ ']' :: head.furtherDims)
  upTo : ∃ sign brace, (∀ c ∈ sign ++ brace, isBlank c = true) ∧ middle = sign ++ '=' :: (brace ++ ['\x7b'])
  extent : middle.length + head.furtherDims.length = head.tailLength

/-- The change of the array whose list goes on with a text behind its brace, if it has to grow. -/
def growth? (head : ArrayHead) (after : Text) : Except Fault (Option SizeChange) :=
  match closeFrom .code ['\x7d'] 0 after with
  | none => .ok none
  | some closing => do
    let count := (splitCommas (after.take closing)).length
    let oldSize ← sizeValue head.digits
    if count ≤ oldSize then return none else return some ⟨head.name, oldSize, count⟩

theorem growth?_eq_ok {head : ArrayHead} {size : Int} {count : Nat} (sized : sizeValue head.digits = .ok size)
    (counted : ∃ closing, closeFrom .code ['\x7d'] 0 after = some closing ∧
      (splitCommas (after.take closing)).length = count) :
    growth? head after = .ok (if count ≤ size then none else some ⟨head.name, size, count⟩) := by
  obtain ⟨_, closed, rfl⟩ := counted
  simp only [growth?, closed, sized, bind, Except.bind, pure, Except.pure]
  split <;> rfl

/-- What becomes of the name, the size and the further dimensions. -/
def regrown (head : ArrayHead) (old : Text) : Option SizeChange → Text
  | none => old
  | some change => sizedName head.name change.newSize ++ head.furtherDims

/-- What becomes of a text behind a character, and the changes of sizes in it. Where no head starts, a character
is kept, and behind a head the repair goes on after its brace. -/
inductive Grows : Option Char → Text → Text → List SizeChange → Prop where
  | done {before : Option Char} : Grows before [] [] []
  | skip {before : Option Char} {c : Char} {rest rest' : Text} {changes : List SizeChange} :
      (isWordBoundary before (some c) = true → readArrayHead (c :: rest) = none) →
      Grows (some c) rest rest' changes → Grows before (c :: rest) (c :: rest') changes
  | head {before : Option Char} {head : ArrayHead} {old middle after after' : Text} {change : Option SizeChange}
      {changes : List SizeChange} :
      isWordBoundary before old.head? = true → HeadText (old ++ middle ++ after) head old middle after →
      growth? head after = .ok change → Grows (some '\x7b') after after' changes →
      Grows before (old ++ middle ++ after) (regrown head old change ++ middle ++ after') (change.toList ++ changes)

theorem HeadForm.headText {outer left right tail : Text} {head : ArrayHead}
    (form : HeadForm text head after outer left right tail sign brace)
    (found : readArrayHead text = .some (head, after)) :
    HeadText text head (head.name ++ outer ++ '[' :: (left ++ head.digits ++ right ++ ']' :: head.furtherDims))
      (sign ++ '=' :: (brace ++ ['\x7b'])) after := by
  obtain ⟨around, upTo⟩ := forall_mem_append.mp form.blank
  refine ⟨found, ?_, ⟨outer, left, right, around, rfl⟩, ⟨sign, brace, upTo, rfl⟩, ?_⟩
  · conv_lhs => rw [form.whole, form.further, form.stop]
    simp only [append_assoc, cons_append, nil_append]
  · have length := congrArg List.length form.further
    rw [form.stop] at length
    rw [form.length]
    simp only [length_append, length_cons, length_nil] at length ⊢
    omega

theorem exists_headText {head : ArrayHead} (found : readArrayHead text = some (head, after)) :
    ∃ old middle, HeadText text head old middle after := by
  obtain ⟨_, _, _, _, _, _, form⟩ := readArrayHead_eq_some found
  exact ⟨_, _, form.headText found⟩

namespace HeadText

variable {before : Option Char} {head : ArrayHead} {old middle : Text}

section

variable (found : HeadText text head old middle after)
include found

theorem ne_nil : old ≠ [] := by
  obtain ⟨_, _, _, -, rfl⟩ := found.shape
  simp

theorem getLast? : middle.getLast? = some '\x7b' := by
  obtain ⟨sign, brace, -, rfl⟩ := found.upTo
  exact getLast?_eq_some_iff.mpr ⟨sign ++ '=' :: brace, by simp⟩

theorem further_le : head.furtherDims.length ≤ old.length := by
  obtain ⟨_, _, _, -, rfl⟩ := found.shape
  simp only [length_append, length_cons]
  omega

end

variable (found : HeadText (old ++ middle ++ after) head old middle after)
include found

theorem occurrences (boundary : isWordBoundary before old.head? = true) (index resume : Nat) (here : resume ≤ index) :
    occurrencesFrom readArrayHead before index resume (old ++ middle ++ after) =
      ⟨index, index + (old ++ middle).length, head⟩ ::
        occurrencesFrom readArrayHead (some '\x7b') (index + (old ++ middle).length)
          (index + (old ++ middle).length) after := by
  obtain ⟨c, rest, rfl⟩ := exists_cons_of_ne_nil found.ne_nil
  have boundary : isWordBoundary before (some c) = true := boundary
  have read := found.read
  simp only [cons_append] at read
  have total : (c :: (rest ++ middle ++ after)).length - after.length = (c :: rest ++ middle).length := by
    simp only [length_cons, length_append, cons_append]
    omega
  have last : ((rest ++ middle).getLast?.or (some c)) = some '\x7b' := by
    rw [getLast?_append, found.getLast?]
    rfl
  have passed := occurrencesFrom_append readArrayHead (some c) (index + 1) (rest ++ middle) after
  rw [last] at passed
  have length : index + 1 + (rest ++ middle).length = index + (c :: rest ++ middle).length := by
    simp only [length_append, length_cons, cons_append]
    omega
  rw [length] at passed
  simp only [cons_append] at total passed ⊢
  rw [occurrencesFrom]
  simp only [here, boundary, decide_true, Bool.and_self, if_true, read, total, passed]

theorem closingIndex? (front : Text) :
    Text.closingIndex? (front ++ (old ++ middle ++ after)) (front.length + (old ++ middle).length - 1) =
      (closeFrom .code ['\x7d'] 0 after).map (front.length + (old ++ middle).length + ·) := by
  obtain ⟨inner, rfl⟩ := getLast?_eq_some_iff.mp found.getLast?
  have length : front.length + (old ++ (inner ++ ['\x7b'])).length = (front ++ old ++ inner).length + 1 := by
    simp only [length_append, length_singleton]
    omega
  have shape : front ++ (old ++ (inner ++ ['\x7b']) ++ after) = (front ++ old ++ inner) ++ '\x7b' :: after := by simp
  have opened : ∀ index, closeFrom .code [] index ('\x7b' :: after) = closeFrom .code ['\x7d'] (index + 1) after := by
    intro index
    rw [closeFrom]
    · rfl
    · simp
    · simp
  rw [Text.closingIndex?, length, Nat.add_sub_cancel, shape, drop_left, opened, closeFrom_shift]

theorem sizeChange? (uri : String) (front : Text) :
    Repair.sizeChange? { uri, text := front ++ (old ++ middle ++ after) }
        ⟨front.length, front.length + (old ++ middle).length, head⟩ =
      (growth? head after).map (·.map fun change =>
        ({ range := Document.rangeOf { uri, text := front ++ (old ++ middle ++ after) } front.length
              (front.length + old.length)
           newText := regrown head old (some change) }, change)) := by
  have slice : ∀ closing, Text.slice (front ++ (old ++ middle ++ after)) (front.length + (old ++ middle).length)
      (front.length + (old ++ middle).length + closing) = after.take closing := by
    intro closing
    have shape : front ++ (old ++ middle ++ after) = (front ++ (old ++ middle)) ++ after := by simp
    rw [Text.slice, shape, ← length_append, drop_left, Nat.add_sub_cancel_left]
  have stop : front.length + (old ++ middle).length - head.tailLength + head.furtherDims.length =
      front.length + old.length := by
    have within := found.further_le
    have extent := found.extent
    rw [length_append]
    omega
  rw [Repair.sizeChange?, growth?]
  simp only [found.closingIndex? front]
  cases closeFrom .code ['\x7d'] 0 after with
  | none => rfl
  | some =>
    simp only [Option.map_some, slice, stop]
    cases sizeValue head.digits with
    | error => rfl
    | ok =>
      simp only [bind, Except.bind, pure, Except.pure]
      split <;> rfl

end HeadText

/-! ## All heads -/

theorem offsets_rangeOf (uri : String) (text : Text) {start stop : Nat} (low : start ≤ stop)
    (high : stop ≤ text.length) (newText : Text) :
    Edit.toSplice { uri := "", text } ⟨Document.rangeOf { uri, text } start stop, newText⟩ =
      ⟨start, stop, newText⟩ := by
  have first := @Document.offsetAt_positionAt { uri := "", text } start (low.trans high)
  have last := @Document.offsetAt_positionAt { uri := "", text } stop high
  simp only [Edit.toSplice, Edit.Splice.mk.injEq, and_true]
  exact ⟨first, last⟩

theorem Grows.edits {text text' : Text} {changes : List SizeChange}
    (grows : Grows before text text' changes) (uri : String) (front : Text) (resume : Nat)
    (here : resume ≤ front.length) :
    ∃ found, (occurrencesFrom readArrayHead before front.length resume text).mapM
        (sizeChange? { uri, text := front ++ text }) = .ok found ∧
      (found.filterMap id).map (·.2) = changes ∧
      Edit.Substitutes front.length text
        ((found.filterMap id).map fun change => Edit.toSplice { uri := "", text := front ++ text } change.1)
        text' := by
  induction grows generalizing front resume with
  | done => exact ⟨[], rfl, rfl, .keep⟩
  | @skip before c rest rest' changes unread _ ih =>
    have next : (front ++ [c]).length = front.length + 1 := by simp
    have shape : front ++ c :: rest = (front ++ [c]) ++ rest := by simp
    obtain ⟨found, mapped, changed, substitutes⟩ := ih (front ++ [c]) resume (by omega)
    rw [next] at mapped substitutes
    rw [occurrencesFrom_skip unread, shape]
    exact ⟨found, mapped, changed, substitutes.prepend [c]⟩
  | @head before head old middle after after' change changes boundary found isGrowth _ ih =>
    have next : (front ++ (old ++ middle)).length = front.length + (old ++ middle).length := length_append
    have shape : front ++ (old ++ middle ++ after) = (front ++ (old ++ middle)) ++ after := by simp
    obtain ⟨others, mapped, changed, substitutes⟩ :=
      ih (front ++ (old ++ middle)) (front.length + (old ++ middle).length) next.ge
    rw [next, ← shape] at mapped substitutes
    rw [found.occurrences boundary _ _ here, mapM_cons, found.sizeChange?, isGrowth, mapped]
    refine ⟨_, rfl, ?_⟩
    cases change with
    | none => exact ⟨changed, substitutes.prepend (old ++ middle)⟩
    | some change =>
      refine ⟨congrArg (List.cons change) changed, ?_⟩
      have within : front.length + old.length ≤ (front ++ (old ++ middle ++ after)).length := by
        simp only [length_append]
        omega
      have rest : Edit.Substitutes (front.length + old.length) (middle ++ after)
          ((others.filterMap id).map fun change =>
            Edit.toSplice { uri := "", text := front ++ (old ++ middle ++ after) } change.1)
          (middle ++ after') := by
        refine Edit.Substitutes.prepend middle ?_
        rwa [Nat.add_assoc, ← length_append]
      have replaced := @Edit.Substitutes.replace front.length [] old _ _
        ⟨front.length, front.length + old.length, regrown head old (some change)⟩ _ rfl rfl found.ne_nil rest
      change Edit.Substitutes _ _ (Edit.toSplice _ _ :: _) _
      rw [offsets_rangeOf uri _ (Nat.le_add_right ..) within]
      simpa only [nil_append, append_assoc] using replaced

theorem resizeAll_of_grows {text text' : Text} {changes : List SizeChange}
    (grows : Grows none text text' changes) : resizeAll text = .ok (text', changes) := by
  obtain ⟨found, mapped, changed, substitutes⟩ := grows.edits "" [] 0 (Nat.zero_le _)
  have made : Edit.applyAll text ((found.filterMap id).map (·.1)) = text' := by
    refine Edit.applyAll_of_substitutes ?_
    rw [map_map]
    exact substitutes
  have all : (text.occurrences readArrayHead 0).mapM (sizeChange? { uri := "", text }) = .ok found := mapped
  rw [resizeAll, all]
  simp only [bind, Except.bind, pure, Except.pure, made, changed]

end Repair

end SysYTools
