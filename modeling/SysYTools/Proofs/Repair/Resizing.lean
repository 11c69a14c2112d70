import SysYTools.Proofs.Repair.Sizes

/-!
One array in raw text whose size is made to fit. The size behind the name is the first one that is read, and in the
new text it is the first one again: what stands in front of the name ends there, so no sized name can reach into it.
The initializer is looked for behind the size, and there nothing is changed.
-/

namespace SysYTools.Repair

open List Lexis Text

variable {after digits front name new rest stretch text : Text}

/-- A name with a number in brackets, behind a front of a text that does not end in a word. White space may stand
before the brackets and around the number. -/
structure SizedAt (text name front stretch digits after : Text) : Prop where
  split : text = front ++ (stretch ++ after)
  starts : front.getLast?.any isWordChar = false
  shape : ∃ outer left right, stretch = name ++ (outer ++ '[' :: (left ++ (digits ++ (right ++ [']'])))) ∧
    ∀ c ∈ outer ++ (left ++ right), isBlank c = true
  some : digits ≠ []
  digits : ∀ c ∈ digits, isDecimalDigit c = true

theorem isWordChar_of_mem (isName : IsWord name) : ∀ c ∈ name, isWordChar c = true := by
  cases isName with
  | mk start all =>
    refine forall_mem_cons.mpr ⟨?_, fun c member => isWordChar_of_isNameChar (all c member)⟩
    exact isWordChar_of_isNameChar (by simp [Lexeme.isNameChar, start])

theorem readsAt_iff (isName : IsWord name) {back : Text} :
    ReadsAt (readSizeOf name) none text front back (digits, after) ↔
      ∃ stretch, SizedAt text name front stretch digits after ∧ back = stretch ++ after := by
  have head : ∀ more : Text, (name ++ more).head?.any isWordChar = true := by
    have word := isWordChar_of_mem isName
    cases isName with
    | mk => exact fun _ => word _ mem_cons_self
  constructor
  · rintro ⟨split, boundary, found⟩
    obtain ⟨_, named, sized⟩ := Option.bind_eq_some_iff.mp found
    obtain rfl := readExactly_eq_some named
    obtain ⟨outer, left, right, rfl, outerBlank, innerBlank, some, digits⟩ := readSize_eq_some sized
    have starts : front.getLast?.any isWordChar = false := by
      rw [Option.or_none, isWordBoundary, head] at boundary
      simpa using boundary
    exact ⟨_, ⟨by simpa using split, starts, ⟨outer, left, right, rfl, by
      simpa only [forall_mem_append] using ⟨outerBlank, forall_mem_append.mp innerBlank⟩⟩, some, digits⟩, by simp⟩
  · rintro ⟨_, ⟨split, starts, ⟨outer, left, right, rfl, blank⟩, some, digits⟩, rfl⟩
    refine ⟨split, ?_, ?_⟩
    · rw [Option.or_none, append_assoc, isWordBoundary, head, starts]
      rfl
    · have sized := @readSize_append outer left _ right after blank some digits
      simp [readSizeOf, readExactly_append, ← sized]

/-- A sized name before which there is no other one. -/
structure FirstSized (text name front stretch digits after : Text) : Prop extends
    SizedAt text name front stretch digits after where
  first : ∀ front' stretch' digits' after', SizedAt text name front' stretch' digits' after' →
    front.length ≤ front'.length

theorem FirstSized.sizeOf? (isName : IsWord name) (sized : FirstSized text name front stretch digits after) :
    sizeOf? text name = some ⟨front.length, (front ++ stretch).length, digits⟩ := by
  have reads := (readsAt_iff isName).mpr ⟨stretch, sized.toSizedAt, rfl⟩
  have nonempty : stretch ++ after ≠ [] := by
    obtain ⟨_, _, _, rfl, -⟩ := sized.shape
    simp
  have head := @head?_occurrencesFrom _ _ _ 0 0 _ _ _ _ _ reads nonempty ?_ le_rfl
  · simpa [Repair.sizeOf?, occurrences] using head
  · rintro front' back' ⟨_, _⟩ reads
    obtain ⟨_, sized', -⟩ := (readsAt_iff isName).mp reads
    exact sized.first _ _ _ _ sized'

theorem exists_firstSized (isName : IsWord name) {found : Occurrence Text} (isFound : sizeOf? text name = some found) :
    ∃ front stretch after, FirstSized text name front stretch found.value after ∧
      found.start = front.length ∧ found.stop = (front ++ stretch).length := by
  by_cases some : ∃ length front stretch digits after, SizedAt text name front stretch digits after ∧ front.length = length
  · classical
    obtain ⟨front, stretch, digits, after, sized, length⟩ := Nat.find_spec some
    have least : FirstSized text name front stretch digits after := ⟨sized, fun front' _ _ _ sized' =>
      length ▸ Nat.find_min' some ⟨front', _, _, _, sized', rfl⟩⟩
    obtain rfl := Option.some.inj (isFound.symm.trans (least.sizeOf? isName))
    exact ⟨front, stretch, after, least, rfl, rfl⟩
  · have none : text.occurrences (readSizeOf name) 0 = [] := by
      refine occurrencesFrom_eq_nil fun front back result reads => some ?_
      obtain ⟨stretch, sized, -⟩ := (readsAt_iff isName).mp reads
      exact ⟨_, front, stretch, _, _, sized, rfl⟩
    rw [Repair.sizeOf?, none] at isFound
    cases isFound

theorem FirstSized.anew (isName : IsWord name) (sized : FirstSized text name front stretch digits after)
    {new number : Text} (again : SizedAt (front ++ (new ++ after)) name front new number after) :
    FirstSized (front ++ (new ++ after)) name front new number after := by
  refine ⟨again, fun front' stretch' digits' after' sized' => ?_⟩
  by_contra early
  -- the part of the front behind the start of the earlier one
  obtain ⟨more, rfl⟩ : front' <+: front :=
    prefix_of_prefix_length_le ⟨_, sized'.split.symm⟩ (prefix_append front _) (by omega)
  have some : more ≠ [] := by
    rintro rfl
    simp at early
  have last : more.getLast?.any isWordChar = false := by
    have starts := again.starts
    rwa [getLast?_append_of_ne_nil _ some] at starts
  have split := sized'.split
  rw [append_assoc, append_cancel_left_eq] at split
  have inside : ∀ rest, more = stretch' ++ rest → False := by
    rintro rest rfl
    refine early (sized.first front' stretch' digits' (rest ++ (stretch ++ after))
      ⟨?_, sized'.starts, sized'.shape, sized'.some, sized'.digits⟩)
    simpa using sized.split
  rcases append_eq_append_iff.mp split with ⟨rest, isMore, others⟩ | ⟨rest, isMore, -⟩
  · cases rest with
    | nil => exact inside [] (by simpa using isMore.symm)
    | cons c =>
      -- the earlier one would hold the start of the name in another place than its own start
      obtain ⟨outer, left, right, rfl, blank⟩ := sized'.shape
      obtain ⟨_, _, _, rfl, -⟩ := again.shape
      have start : isNameStart c = true := by
        cases isName with
        | mk start =>
          obtain ⟨rfl, -⟩ := List.cons.inj others
          exact start
      have low := isNameStart_iff.mp start
      have other : isBlank c = false ∧ isDecimalDigit c = false ∧ c ≠ '[' ∧ c ≠ ']' := by
        refine ⟨not_isBlank_of_isNameChar (by simp [Lexeme.isNameChar, start]), ?_, ?_, ?_⟩
        · rw [← Bool.not_eq_true, isDecimalDigit_iff_of_low (by omega), isDigit_iff]
          omega
        · rintro rfl
          cases start
        · rintro rfl
          cases start
      rcases append_eq_append_iff.mp isMore with ⟨_, -, tail⟩ | ⟨_, isName', -⟩
      · have member : c ∈ outer ++ '[' :: (left ++ (digits' ++ (right ++ [']']))) := by simp [tail]
        have digit := sized'.digits c
        have blank := blank c
        simp only [mem_append, mem_cons, not_mem_nil, or_false] at member blank
        simp only [other, Bool.false_eq_true, imp_false, not_or, false_or] at member blank digit
        simp [blank, digit] at member
      · obtain ⟨d, isLast⟩ := Option.ne_none_iff_exists'.mp (mt getLast?_eq_none_iff.mp some)
        have word := isWordChar_of_mem isName d (isName' ▸ mem_append_left _ (mem_of_getLast? isLast))
        simp [isLast, word] at last
  · exact inside rest isMore

/-! ## Initializers -/

theorem initializerBraces?_append (front rest : Text) :
    initializerBraces? (front ++ rest) front.length = (initializerBraces? rest 0).map fun places =>
      (front.length + places.1, front.length + places.2.1, front.length + places.2.2) := by
  have find : ∀ target start, (front ++ rest).find? target (front.length + start) =
      (rest.find? target start).map (front.length + ·) := by
    intro target start
    rw [Text.find?, Text.find?, drop_length_add_append, Option.map_map]
    simp only [Function.comp_def, Nat.add_assoc]
  have close : ∀ start, (front ++ rest).closingIndex? (front.length + start) =
      (rest.closingIndex? start).map (front.length + ·) := by
    intro start
    rw [closingIndex?, closingIndex?, drop_length_add_append, closeFrom_shift,
      closeFrom_shift _ _ start, Option.map_map]
    simp only [Function.comp_def, Nat.add_assoc]
  have sign := find '=' 0
  rw [Nat.add_zero] at sign
  simp only [initializerBraces?, sign, find, close, Option.bind_eq_bind, Option.pure_def, Option.bind_map,
    Option.map_bind, Function.comp_def, Option.map_some]

theorem initializerElements?_append (front rest : Text) :
    initializerElements? (front ++ rest) front.length = initializerElements? rest 0 := by
  have slice : ∀ start stop, (front ++ rest).slice (front.length + start) (front.length + stop) =
      rest.slice start stop := by
    intro start stop
    rw [Text.slice, Text.slice, drop_length_add_append, Nat.add_sub_add_left]
  simp only [initializerElements?, initializerBraces?_append, Option.bind_eq_bind, Option.bind_map, Function.comp_def,
    Nat.add_assoc, slice]

theorem resize_eq_some {resizing : Resizing} (resized : resize text name = .ok (some resizing)) :
    ∃ found elements, sizeOf? text name = some found ∧ initializerElements? text found.stop = some elements ∧
      sizeValue found.value = .ok resizing.oldSize ∧ resizing.oldSize < resizing.newSize ∧
      resizing.newSize = elements.length ∧
      resizing.text = text.splice found.start found.stop (sizedName name elements.length) := by
  unfold resize at resized
  split at resized
  · cases resized
  next found isFound =>
    split at resized
    · cases resized
    next elements isInit =>
      cases sized : sizeValue found.value with
      | error => simp [sized, bind, Except.bind] at resized
      | ok =>
        simp only [sized, bind, Except.bind, pure, Except.pure] at resized
        split at resized
        · cases resized
        next long =>
          cases resized
          exact ⟨found, elements, isFound, isInit, sized, Int.not_le.mp long, rfl, rfl⟩

theorem settled_of_elements {found : Occurrence Text} {elements : List Text} (isFound : sizeOf? text name = some found)
    (isInit : initializerElements? text found.stop = some elements)
    (sized : sizeValue found.value = .ok (elements.length : Int)) :
    resize text name = .ok none ∧ trim text name = .ok none := by
  constructor
  · simp [resize, isFound, isInit, sized, bind, Except.bind, pure, Except.pure]
  · obtain ⟨⟨_, _, _⟩, braces, inside⟩ := Option.bind_eq_some_iff.mp isInit
    simp only [Option.pure_def] at inside
    split at inside
    · obtain rfl := Option.some.inj inside
      simp [trim, isFound, braces, sized, bind, Except.bind, pure, Except.pure]
    · cases inside

/-- A size that is made to fit is greater than before. Only the first sized name of the text is written in another
way, and the same elements are found behind it. If the new size has not more digits than are read, then nothing is
left to change. -/
theorem resize_settles {resizing : Resizing} (isName : IsWord name)
    (resized : resize text name = .ok (some resizing)) :
    resizing.oldSize < resizing.newSize ∧
    ∃ front stretch digits after elements, FirstSized text name front stretch digits after ∧
      sizeValue digits = .ok resizing.oldSize ∧ resizing.text = front ++ (sizedName name resizing.newSize ++ after) ∧
      initializerElements? text (front ++ stretch).length = some elements ∧ elements.length = resizing.newSize ∧
      sizeOf? resizing.text name = some ⟨front.length, (front ++ sizedName name resizing.newSize).length,
        decimalText resizing.newSize⟩ ∧
      initializerElements? resizing.text (front ++ sizedName name resizing.newSize).length = some elements ∧
      ((decimalText resizing.newSize).length ≤ digitLimit →
        resize resizing.text name = .ok none ∧ trim resizing.text name = .ok none) := by
  obtain ⟨⟨_, _, digits⟩, elements, isFound, isInit, sized, less, count, isText⟩ := resize_eq_some resized
  obtain ⟨front, stretch, after, first, rfl, rfl⟩ := exists_firstSized isName isFound
  have isText' : resizing.text = front ++ (sizedName name resizing.newSize ++ after) := by
    rw [isText, first.split, count, splice, ← append_assoc front stretch after, drop_left]
    simp
  have again : FirstSized resizing.text name front (sizedName name resizing.newSize) (decimalText resizing.newSize)
      after := by
    rw [isText']
    refine first.anew isName ⟨rfl, first.starts, ⟨[], [], [], by simp [sizedName], by simp⟩,
      Literal.toString_ne_nil _, AllDigits.isDecimalDigit (Literal.allDigits_toString _)⟩
  have isFound' := again.sizeOf? isName
  have isInit' : initializerElements? resizing.text (front ++ sizedName name resizing.newSize).length = some elements := by
    rw [first.split, ← append_assoc, initializerElements?_append] at isInit
    rw [isText', ← append_assoc, initializerElements?_append, isInit]
  refine ⟨less, front, stretch, digits, after, elements, first, sized, isText', isInit, count.symm, isFound', isInit',
    fun short => settled_of_elements isFound' isInit' ?_⟩
  rw [← count]
  exact Radix.readInt_toString short

theorem resize_settles_spaced :
    IsWord ['a'] ∧ resize "int aa[9],a [ 1 ]=\x7b2,a[3]\x7d;".toList ['a'] =
        .ok (some ⟨"int aa[9],a[2]=\x7b2,a[3]\x7d;".toList, 1, 2⟩) ∧
      resize "int aa[9],a[2]=\x7b2,a[3]\x7d;".toList ['a'] = .ok none ∧
      trim "int aa[9],a[2]=\x7b2,a[3]\x7d;".toList ['a'] = .ok none := by
  have isName : IsWord ['a'] := .mk rfl (by simp)
  have resized : resize "int aa[9],a [ 1 ]=\x7b2,a[3]\x7d;".toList ['a'] =
      .ok (some ⟨"int aa[9],a[2]=\x7b2,a[3]\x7d;".toList, 1, 2⟩) := by cbv
  obtain ⟨-, _, _, _, _, _, -, -, -, -, -, -, -, settled⟩ := resize_settles isName resized
  exact ⟨isName, resized, settled (by decide)⟩

end SysYTools.Repair
