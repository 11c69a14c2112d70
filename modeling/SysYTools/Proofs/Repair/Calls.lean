import SysYTools.Proofs.Repair.Elements
import SysYTools.Proofs.Repair.Heads
import SysYTools.Proofs.Text.Search
import SysYTools.Proofs.Tree.Arguments
import SysYTools.Repair.Calls

/-!
Calls in the raw text of a program without comments. The search from the name of a call finds this call, the parts
between its commas are the texts of its arguments, and texts that are joined by commas are read as arguments again.
-/

namespace SysYTools

open List Lexis Grammar Text

variable {arguments exprs : List Expr} {c : Char} {expr : Expr} {text : Text} {tokens : List Token}

/-! ## Texts without comments -/

namespace Lexis

def Uncommented (list : List Piece) : Prop := ∀ piece ∈ list, ¬ StartsComment piece.2

instance (list : List Piece) : Decidable (Uncommented list) :=
  inferInstanceAs (Decidable (∀ piece ∈ list, ¬ (['/', '/'] <+: piece.2 ∨ ['/', '*'] <+: piece.2)))

namespace Uncommented

theorem left {left right : List Piece} (uncommented : Uncommented (left ++ right)) : Uncommented left :=
  fun piece member => uncommented piece (mem_append_left _ member)

theorem right {left right : List Piece} (uncommented : Uncommented (left ++ right)) : Uncommented right :=
  fun piece member => uncommented piece (mem_append_right _ member)

theorem tail {piece : Piece} {rest : List Piece} (uncommented : Uncommented (piece :: rest)) : Uncommented rest :=
  fun other member => uncommented other (mem_cons_of_mem _ member)

theorem isBlank {list : List Piece} (uncommented : Uncommented list) (fits : Fits list) {piece : Piece}
    (member : piece ∈ list) (isGap : piece.1 = .gap) : ∀ c ∈ piece.2, isBlank c = true := by
  obtain ⟨_, _, rfl⟩ := append_of_mem member
  obtain ⟨lexeme, _⟩ := piece
  obtain rfl : lexeme = .gap := isGap
  have outside := uncommented _ member
  cases fits.right.gap with
  | @blank c _ blank =>
    intro d isChar
    obtain rfl := mem_singleton.mp isChar
    simp only [Lexeme.isGapChar, Bool.or_eq_true, beq_iff_eq] at blank
    rcases blank with ((rfl | rfl) | rfl) | rfl <;> rfl
  | line => exact absurd (.inl ⟨_, rfl⟩) outside
  | @block body _ _ => exact absurd (.inr ⟨body ++ ['*', '/'], rfl⟩) outside

theorem quiet {list : List Piece} (uncommented : Uncommented list) (fits : Fits list) : Quiet list := by
  intro piece member isGap c isChar
  have blank := uncommented.isBlank fits member isGap c isChar
  cases found : isBracketOrComma c with
  | false => rfl
  | true => rcases isBracketOrComma_cases found with rfl | rfl | rfl | rfl | rfl | rfl | rfl <;> cases blank

theorem blank_of_none {gaps : List Piece} (uncommented : Uncommented gaps) (fits : Fits gaps)
    (none : wordsOf gaps = []) : ∀ c ∈ written gaps, SysYTools.isBlank c = true := by
  intro c member
  obtain ⟨piece, isPiece, within⟩ := mem_flatMap.mp member
  exact uncommented.isBlank fits isPiece (gap_of_wordsOf fits.sound none piece isPiece) c within

end Uncommented

/-! ## White space around words -/

theorem stripRight_append {run : Text} (blank : ∀ c ∈ run, isBlank c = true) :
    Text.stripRight (text ++ run) = Text.stripRight text := by
  rw [Text.stripRight, Text.stripRight, dropRightWhile, dropRightWhile, reverse_append,
    dropWhile_append_of_pos (by simpa using blank)]

theorem stripRight_concat (other : isBlank c = false) : Text.stripRight (text ++ [c]) = text ++ [c] := by
  rw [Text.stripRight, dropRightWhile, reverse_append, reverse_singleton, singleton_append,
    dropWhile_cons_of_neg (by simp [other])]
  simp

section

variable {list : List Piece} (fits : Fits list) (uncommented : Uncommented list)
include fits uncommented

theorem Fits.exists_stripRight :
    ∃ core gaps, list = core ++ gaps ∧ wordsOf gaps = [] ∧ written core = (written list).stripRight := by
  induction list using List.reverseRecOn with
  | nil => exact ⟨[], [], rfl, rfl, rfl⟩
  | append_singleton list piece ih =>
    obtain ⟨_, value⟩ := piece
    rcases fits.sound _ (mem_append_right _ mem_cons_self) with rfl | ⟨kind, rfl⟩
    · obtain ⟨core, gaps, rfl, none, isCore⟩ := ih fits.left uncommented.left
      refine ⟨core, gaps ++ [(.gap, value)], by simp, by rw [wordsOf_append, none]; rfl, ?_⟩
      have blank := uncommented.isBlank fits (mem_append_right _ mem_cons_self) rfl
      rw [isCore, written_append (core ++ gaps), written_cons, written_nil, append_nil, stripRight_append blank]
    · refine ⟨list ++ [(.token kind, value)], [], by simp, rfl, ?_⟩
      have token := fits.isToken (mem_append_right list mem_cons_self)
      obtain ⟨_, last, rfl⟩ := (eq_nil_or_concat' value).resolve_left token.ne_nil
      rw [written_append, written_cons, written_nil, append_nil, ← append_assoc,
        stripRight_concat (token.not_blank last (by simp))]

theorem Fits.exists_stripLeft :
    ∃ gaps core, list = gaps ++ core ∧ wordsOf gaps = [] ∧ written core = (written list).stripLeft := by
  induction list with
  | nil => exact ⟨[], [], rfl, rfl, rfl⟩
  | cons piece list ih =>
    obtain ⟨_, value⟩ := piece
    rcases fits.sound _ mem_cons_self with rfl | ⟨kind, rfl⟩
    · obtain ⟨gaps, core, rfl, none, isCore⟩ := ih fits.tail uncommented.tail
      have blank := uncommented.isBlank fits mem_cons_self rfl
      refine ⟨(.gap, value) :: gaps, core, rfl, none, ?_⟩
      rw [isCore, written_cons, Text.stripLeft, Text.stripLeft, dropWhile_append_of_pos blank]
    · have token := fits.isToken mem_cons_self
      obtain ⟨c, more, rfl⟩ := exists_cons_of_ne_nil token.ne_nil
      refine ⟨[], (.token kind, c :: more) :: list, rfl, rfl, ?_⟩
      exact (@stripLeft_append [] _ (by simp) (by simpa using token.not_blank c mem_cons_self)).symm

theorem Fits.exists_strip :
    ∃ core, written core = (written list).strip ∧ wordsOf core = wordsOf list ∧ Fits core ∧ Uncommented core := by
  obtain ⟨_, _, rfl, none, isRest⟩ := fits.exists_stripLeft uncommented
  obtain ⟨core, _, rfl, none', isCore⟩ := fits.right.exists_stripRight uncommented.right
  refine ⟨core, by rw [isCore, isRest, strip], ?_, fits.right.left, uncommented.right.left⟩
  rw [wordsOf_append, wordsOf_append, none, none', append_nil, nil_append]

theorem Fits.pieces_append_mark
    {kind : TokenKind} (delimits : isDelimiter c = true) (isMark : TokenKind.ofChar? c = some kind) (rest : Text) :
    Lexis.pieces (written list ++ c :: rest) = list ++ (.token kind, [c]) :: Lexis.pieces rest := by
  have clean : Clean (written list) := by
    rw [Clean, fits.pieces]
    exact fits.sound
  rw [pieces_append clean (.of_isDelimiter delimits), fits.pieces, pieces_cons_mark delimits isMark]
  intro last isLast
  rw [fits.pieces] at isLast
  exact .of_isDelimiter delimits fun line => uncommented last (mem_of_mem_getLast? isLast) (.inl line)

end

end Lexis

/-! ## Arguments -/

namespace Repair

/-- A text that is read as an expression. -/
def Reads (text : Text) (expr : Expr) : Prop :=
  ∃ list tokens, written list = text ∧ Fits list ∧ Uncommented list ∧ wordsOf list = tokens.map wordOf ∧
    ExprAt 1 tokens expr

theorem Reads.ne_nil (reads : Reads text expr) : text ≠ [] := by
  rintro rfl
  obtain ⟨_, _, isText, fits, -, isWords, derived⟩ := reads
  have none := fits.pieces
  rw [isText, pieces_nil] at none
  obtain ⟨_, _, rfl, -⟩ := Parser.ExprAt_starts derived
  rw [← none] at isWords
  cases isWords

theorem reads_zero : Reads ['0'] (.intLit "0" .nowhere) := by
  refine ⟨[(.token .integerLiteral, ['0'])], [⟨.integerLiteral, "0", .nowhere⟩], rfl, ⟨by cbv, ?_⟩, by decide, rfl,
    (ExprAt.intLit rfl).loosen (show 1 ≤ 7 by decide) (by decide)⟩
  simp [Sound]

theorem reads_strip {list : List Piece} (fits : Fits list) (uncommented : Uncommented list)
    (isWords : wordsOf list = tokens.map wordOf) (derived : ExprAt 1 tokens expr) :
    Reads (written list).strip expr := by
  obtain ⟨core, isCore, same, fitsCore, uncommentedCore⟩ := fits.exists_strip uncommented
  exact ⟨core, tokens, isCore, fitsCore, uncommentedCore, same.trans isWords, derived⟩

theorem reads_partsAt (derived : ExprList tokens exprs) {list : List Piece}
    (isWords : wordsOf list = tokens.map wordOf) (fits : Fits list) (uncommented : Uncommented list) :
    List.Forall₂ Reads ((partsAt (· == ',') 0 (written list)).map (·.strip)) exprs := by
  have quiet := uncommented.quiet fits
  induction derived using ExprList.rec (motive_1 := fun _ _ _ _ => True) (motive_2 := fun _ _ _ _ _ => True)
    generalizing list with
  | single inside =>
    rw [fits.partsAt_last inside.nest isWords quiet]
    exact .cons (reads_strip fits uncommented isWords inside) .nil
  | more inside separates _ _ ih =>
    obtain ⟨_, _, rfl, isFirst, isRest⟩ := fits.exists_comma isWords separates
    rw [written_append, written_cons, singleton_append, fits.left.partsAt_comma inside.nest isFirst quiet.left]
    exact .cons (reads_strip fits.left uncommented.left isFirst inside)
      (ih isRest fits.right.tail uncommented.right.tail quiet.right.tail)
  | _ => trivial

theorem reads_splitCommas (given : Given tokens arguments) {list : List Piece}
    (isWords : wordsOf list = tokens.map wordOf) (fits : Fits list) (uncommented : Uncommented list) :
    List.Forall₂ Reads (written list).splitCommas arguments := by
  rcases given with ⟨rfl, rfl⟩ | derived
  · rw [splitCommas_blank (uncommented.blank_of_none fits isWords)]
    exact .nil
  · have parts := reads_partsAt derived isWords fits uncommented
    rw [splitCommas, splitTopLevel]
    split
    next empty =>
      rw [empty] at parts
      cases parts with
      | cons first => exact absurd rfl first.ne_nil
    · exact parts

theorem readAs_joinCommas {texts : List Text} (reads : List.Forall₂ Reads texts exprs) :
    ∃ list, written list = joinCommas texts ∧ Fits list ∧ Uncommented list ∧ ReadAs (wordsOf list) exprs := by
  induction reads with
  | nil =>
    refine ⟨[], rfl, ⟨pieces_nil, by simp⟩, by simp [Uncommented], fun tokens none => ?_⟩
    exact ⟨[], .inl ⟨map_eq_nil_iff.mp none, rfl⟩, rfl⟩
  | @cons text expr texts exprs first others ih =>
    obtain ⟨own, _, rfl, fitsOwn, uncommentedOwn, isWords, derived⟩ := first
    cases others with
    | nil =>
      refine ⟨own, by simp [joinCommas], fitsOwn, uncommentedOwn, fun tokens' same => ?_⟩
      obtain ⟨expr', derived', shape⟩ := derived.reword (same.trans isWords)
      exact ⟨[expr'], .inr (.single derived'), by simp only [Expr.shapes, shape]⟩
    | @cons second expr' more exprs' second' others =>
      obtain ⟨list, isList, fitsList, uncommentedList, readsList⟩ := ih
      have joined : joinCommas (written own :: second :: more) = written own ++ ',' :: ' ' :: written list := by
        rw [isList]
        simp [joinCommas, intercalate_cons_cons]
      have cut : pieces (written own ++ ',' :: ' ' :: written list) =
          own ++ (.token .comma, [',']) :: (.gap, [' ']) :: list := by
        rw [fitsOwn.pieces_append_mark uncommentedOwn rfl rfl, pieces_cons_blank rfl, fitsList.pieces]
      refine ⟨own ++ (.token .comma, [',']) :: (.gap, [' ']) :: list, by rw [joined]; simp, ⟨?_, ?_⟩, ?_, ?_⟩
      · simpa using cut
      · simp only [forall_mem_append, forall_mem_cons]
        exact ⟨fitsOwn.sound, .inr ⟨_, rfl⟩, .inl rfl, fitsList.sound⟩
      · simp only [Uncommented, forall_mem_append, forall_mem_cons]
        exact ⟨uncommentedOwn, by simp [StartsComment], by simp [StartsComment], uncommentedList⟩
      · intro tokens' same
        rw [wordsOf_append] at same
        obtain ⟨_, _, rfl, sameFront, sameRest⟩ := map_eq_append_iff.mp same
        obtain ⟨comma', others', rfl, sameComma, sameOthers⟩ := map_eq_cons_iff.mp sameRest
        obtain ⟨_, derived', shape⟩ := derived.reword (sameFront.trans isWords)
        obtain ⟨_, given, shapes⟩ := readsList others' sameOthers
        rcases given with ⟨-, rfl⟩ | derivedOthers
        · cases shapes
        · have separates : comma'.kind = .comma := congrArg Prod.fst sameComma
          exact ⟨_, .inr (.more derived' separates derivedOthers), by rw [Expr.shapes, Expr.shapes, shape, shapes]⟩

theorem reads_adjustArguments {texts : List Text} (reads : List.Forall₂ Reads texts arguments) (count : Nat) :
    List.Forall₂ Reads (adjustArguments texts count)
      (arguments.take count ++ List.replicate (count - arguments.length) (.intLit "0" .nowhere)) := by
  have missing : ((count : Int) - texts.length).toNat = count - arguments.length := by
    rw [reads.length_eq]
    omega
  rw [adjustArguments, takeSigned, if_pos (Int.natCast_nonneg count), missing, Int.toNat_natCast]
  refine rel_append (List.forall₂_take count reads) ?_
  induction count - arguments.length with
  | zero => exact .nil
  | succ _ ih => exact .cons reads_zero ih

/-! ## One call -/

/-- The pieces of a text around a call: those before its name, those up to its opening parenthesis, those between
its parentheses and those behind it. -/
structure CallPieces (list left : List Piece) (name : Text) (gaps inner right : List Piece) : Prop where
  split : list = left ++ (.token .identifier, name) :: (gaps ++ (.token .leftParen, ['(']) ::
    (inner ++ (.token .rightParen, [')']) :: right))
  fits : Fits list
  uncommented : Uncommented list
  wordless : wordsOf gaps = []
  apart : ∀ c ∈ (written left).getLast?, isWordChar c = false
  balanced : Balanced (wordsOf inner)

namespace CallPieces

variable {list left gaps inner right : List Piece} {name : Text}
  (call : CallPieces list left name gaps inner right)
include call

theorem written_eq : written list =
    written left ++ (name ++ (written gaps ++ '(' :: (written inner ++ ')' :: written right))) := by
  rw [call.split]
  simp

theorem isWord : IsWord name := by
  have fits := call.fits
  rw [call.split] at fits
  exact (fits.isToken (mem_append_right left mem_cons_self)).word_of_kind (.inl rfl)

theorem readCallHead_eq : readCallHead (name ++ (written gaps ++ '(' :: (written inner ++ ')' :: written right))) =
    some (name, written inner ++ ')' :: written right) := by
  have fits := call.fits
  have uncommented := call.uncommented
  rw [call.split] at fits uncommented
  have after := fits.right.parted_word call.isWord
  have blank := uncommented.right.tail.left.blank_of_none fits.right.tail.left call.wordless
  simp only [written_append, written_cons, singleton_append] at after
  simp [readCallHead, readName_append call.isWord after, readMark_append blank (show isBlank '(' = false from rfl)]

theorem exists_occurrences : ∃ later, (written list).occurrences readCallHead (written left).length =
    ⟨(written left).length, (written left).length + (name.length + (written gaps).length + 1), name⟩ :: later := by
  obtain ⟨c, more, isName⟩ : ∃ c more, name = c :: more := by
    cases call.isWord with
    | mk => exact ⟨_, _, rfl⟩
  have start : isWordChar c = true := by
    have chars := call.isWord.chars c (by rw [isName]; exact mem_cons_self)
    exact isWordChar_of_isNameChar chars
  have boundary : isWordBoundary ((written left).getLast?.or none) (some c) = true := by
    cases last : (written left).getLast? with
    | none => simp [isWordBoundary, start]
    | some d => simp [isWordBoundary, start, call.apart d last]
  have passed := occurrencesFrom_append readCallHead none 0 (written left)
    (name ++ (written gaps ++ '(' :: (written inner ++ ')' :: written right)))
  have head := call.readCallHead_eq
  rw [Nat.zero_add] at passed
  rw [call.written_eq, occurrences, passed]
  rw [isName, cons_append] at head ⊢
  rw [occurrencesFrom]
  simp only [le_refl, decide_true, boundary, Bool.and_self, if_true, head]
  refine ⟨_, congrArg₂ List.cons ?_ rfl⟩
  simp only [Occurrence.mk.injEq, length_cons, length_append, true_and, and_true]
  omega

theorem findCall?_eq {isWanted : Text → Bool} (wanted : isWanted name = true) :
    findCall? (written list) (written left).length isWanted = some
      { start := (written left).length
        stop := (written left).length + (name.length + (written gaps).length + 1 + (written inner).length + 1)
        callee := name
        arguments := (written inner).splitCommas } := by
  obtain ⟨_, found⟩ := call.exists_occurrences
  have fits := call.fits
  rw [call.split, append_cons, ← append_assoc] at fits
  have closing := fits.closingIndex?_group rfl call.balanced
  have start : (written (left ++ [(.token .identifier, name)] ++ gaps)).length =
      (written left).length + (name.length + (written gaps).length + 1) - 1 := by
    simp only [written_append, written_cons, written_nil, append_nil, length_append]
    omega
  have same : left ++ [(Lexeme.token .identifier, name)] ++ gaps ++
      (.token .leftParen, ['(']) :: (inner ++ (.token .rightParen, [')']) :: right) = list := by
    rw [call.split]
    simp
  rw [same, start] at closing
  have size : (written left).length + (name.length + (written gaps).length + 1) - 1 + 1 =
      (written left).length + (name.length + (written gaps).length + 1) := by omega
  have between : (written list).slice ((written left).length + (name.length + (written gaps).length + 1))
      ((written left).length + (name.length + (written gaps).length + 1) + (written inner).length) = written inner := by
    have shape : written list =
        (written left ++ (name ++ (written gaps ++ ['(']))) ++ (written inner ++ ')' :: written right) := by
      rw [call.written_eq]
      simp
    rw [slice, shape, drop_left' (by simp; omega), Nat.add_sub_cancel_left, take_left]
  rw [size] at closing
  simp only [findCall?, found, find?_cons, wanted, Option.bind_eq_bind, Option.bind_some, closing, between,
    Option.pure_def, Option.some.injEq, CallText.mk.injEq, true_and, and_true]
  omega

variable {texts : List Text} {given : List Piece} (isGiven : written given = joinCommas texts)
include isGiven

theorem applyAll_eq (uri : String) :
    Edit.applyAll (written list) [{
      range := Document.rangeOf { uri, text := written list } (written left).length
        ((written left).length + (name.length + (written gaps).length + 1 + (written inner).length + 1))
      newText := name ++ '(' :: joinCommas texts ++ [')'] }] =
      written (left ++ (.token .identifier, name) :: (.token .leftParen, ['(']) ::
        (given ++ (.token .rightParen, [')']) :: right)) := by
  have shape : written list =
      written left ++ (name ++ (written gaps ++ '(' :: (written inner ++ [')']))) ++ written right := by
    rw [call.written_eq]
    simp
  have size : (name ++ (written gaps ++ '(' :: (written inner ++ [')']))).length =
      name.length + (written gaps).length + 1 + (written inner).length + 1 := by
    simp
    omega
  have within : (written left).length + (name ++ (written gaps ++ '(' :: (written inner ++ [')']))).length ≤
      (written list).length := by
    rw [shape]
    simp only [length_append]
    omega
  rw [← size]
  refine Edit.applyAll_of_substitutes ?_
  rw [map_singleton, offsets_rangeOf uri _ (Nat.le_add_right ..) within]
  have replaced := @Edit.Substitutes.replace 0 (written left)
    (name ++ (written gaps ++ '(' :: (written inner ++ [')']))) (written right) (written right)
    ⟨(written left).length, (written left).length + (name ++ (written gaps ++ '(' :: (written inner ++ [')']))).length,
      name ++ '(' :: joinCommas texts ++ [')']⟩ [] (Nat.zero_add _).symm rfl (by simp) .keep
  rw [← shape] at replaced
  simpa [isGiven] using replaced

omit isGiven in
theorem fits_given (fitsGiven : Fits given) (uncommentedGiven : Uncommented given) :
    Fits (left ++ (.token .identifier, name) :: (.token .leftParen, ['(']) ::
      (given ++ (.token .rightParen, [')']) :: right)) := by
  have fits := call.fits
  have uncommented := call.uncommented
  rw [call.split, append_cons] at fits uncommented
  have behind := fits.right.right.tail.right.tail
  refine ⟨?_, ?_⟩
  · have cut := fits.left.pieces_append_mark uncommented.left rfl (show TokenKind.ofChar? '(' = _ from rfl)
      (written given ++ ')' :: written right)
    rw [fitsGiven.pieces_append_mark uncommentedGiven rfl (show TokenKind.ofChar? ')' = _ from rfl),
      behind.pieces] at cut
    simpa using cut
  · simp only [forall_mem_append, forall_mem_cons]
    exact ⟨fits.left.left.sound, .inr ⟨_, rfl⟩, .inr ⟨_, rfl⟩, fitsGiven.sound, .inr ⟨_, rfl⟩, behind.sound⟩

end CallPieces

end Repair

end SysYTools
