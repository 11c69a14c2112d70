import SysYTools.Proofs.Editor.Notice
import SysYTools.Proofs.Fix.Marks
import SysYTools.Proofs.Repair.Definitions
import SysYTools.Proofs.Tree.Variables

/-!
The repair of all arrays of a program. In a text that is legible the repair finds the definitions of the program, and
it gives the arrays that are smaller than their lists the sizes of these.
-/

namespace SysYTools

open List Lexis Grammar

variable {name : Text} {after after' : List Word} {elements : List InitVal} {span : Span}
variable {var : VarDef}
variable {dims : List Expr} {front : Text} {number : String} {start stop : Span} {tokens : List Token}
  {words : List Word}

theorem Lexis.Fits.parted_gaps {gaps rest : List Piece} (fits : Fits (gaps ++ rest)) (noWords : wordsOf gaps = [])
    (nonempty : gaps ≠ []) : ∃ c, (written gaps).getLast? = some c ∧ Parted (some c) (written rest) := by
  rcases eq_nil_or_concat' gaps with rfl | ⟨_, ⟨lexeme, value⟩, rfl⟩
  · exact absurd rfl nonempty
  obtain rfl : lexeme = .gap := gap_of_wordsOf fits.left.sound noWords (lexeme, value) (by simp)
  rw [append_assoc, singleton_append] at fits
  obtain ⟨c, more, split, -⟩ := fits.right.read
  obtain rfl : value = c :: more := split
  have parted := fits.right.gap.parted
  rw [getLast?_eq_some_getLast (cons_ne_nil c more)] at parted
  refine ⟨_, ?_, parted⟩
  simp [getLast?_eq_some_getLast]

namespace Repair

open Text

/-! ## Names -/

theorem Ready.boundary {before gaps rest : List Piece}
    (ready : Ready before (gaps ++ (.token .identifier, name) :: rest)) (noWords : wordsOf gaps = []) :
    isWordBoundary ((written gaps).getLast?.or (written before).getLast?) name.head? = true := by
  have fits := ready.fits.right
  have token := fits.isToken (mem_append_right gaps mem_cons_self)
  obtain ⟨c, more, rfl⟩ := exists_cons_of_ne_nil token.ne_nil
  have word : isWordChar c = true := isWordChar_of_isNameChar ((token.word_of_kind (.inl rfl)).chars c mem_cons_self)
  have parted : Parted ((written gaps).getLast?.or (written before).getLast?) (c :: (more ++ written rest)) := by
    cases gaps with
    | nil => simpa using ready.parted
    | cons first gaps =>
      obtain ⟨d, last, parted⟩ := fits.parted_gaps noWords (cons_ne_nil first gaps)
      rw [last]
      simpa using parted
  cases last : ((written gaps).getLast?.or (written before).getLast?).any isWordChar with
  | false => simp [isWordBoundary, last, word]
  | true =>
    have other := parted last
    simp [word] at other

section

variable {gaps rest : List Piece} (fits : Fits (gaps ++ (.token .identifier, name) :: rest))
  (quiet : Quiet (gaps ++ (.token .identifier, name) :: rest)) (noWords : wordsOf gaps = [])
include fits quiet noWords

theorem readArrayHead_eq_none_of_gaps {start : Text} (split : written gaps = front ++ start) (nonempty : start ≠ []) :
    readArrayHead (start ++ (name ++ written rest)) = none := by
  have some : gaps ≠ [] := by
    rintro rfl
    exact nonempty (append_eq_nil_iff.mp split.symm).2
  obtain ⟨c, last, parted⟩ := fits.parted_gaps noWords some
  have none := readArrayHead_eq_none_of_next fits quiet (last ▸ parted) (by simp [noWords]) (by simp) split nonempty
  simpa using none

theorem readArrayHead_eq_none_of_name
    (unread : readArrayHead (name ++ written rest) = none) {before : Option Char} {start : Text}
    (split : written gaps ++ name = front ++ start) (nonempty : start ≠ [])
    (boundary : isWordBoundary (front.getLast?.or before) start.head? = true) :
    readArrayHead (start ++ written rest) = none := by
  have form : IsWord name := (fits.isToken (mem_append_right gaps mem_cons_self)).word_of_kind (.inl rfl)
  have word : ∀ c ∈ name, isWordChar c = true := fun c member => isWordChar_of_isNameChar (form.chars c member)
  rcases append_eq_append_iff.mp split with ⟨more, rfl, isName⟩ | ⟨more, isGaps, rfl⟩
  · cases more with
    | nil => rwa [show start = name from isName.symm]
    | cons c more =>
      -- inside the name there is no boundary
      obtain ⟨d, _, rfl⟩ := exists_cons_of_ne_nil nonempty
      have last : ((written gaps ++ c :: more).getLast?.or before).any isWordChar = true := by
        have isWord := word ((c :: more).getLast (cons_ne_nil c more))
          (by rw [isName]; exact mem_append_left _ (getLast_mem _))
        simp [getLast?_append, getLast?_eq_some_getLast (cons_ne_nil c more), isWord]
      have first : isWordChar d = true := word d (by rw [isName]; simp)
      rw [isWordBoundary, last, head?_cons, Option.any_some, first] at boundary
      cases boundary
  · cases more with
    | nil => exact unread
    | cons c more =>
      rw [append_assoc]
      exact readArrayHead_eq_none_of_gaps fits quiet noWords isGaps (cons_ne_nil c more)

end

theorem Turns.keepName {words' : List Word} (turns : Turns words words') {before gaps rest : List Piece}
    (ready : Ready before (gaps ++ (.token .identifier, name) :: rest)) (noWords : wordsOf gaps = [])
    (isWords : wordsOf rest = words) (unread : readArrayHead (name ++ written rest) = none) :
    ∃ list' changes, Grows (written before).getLast? (written (gaps ++ (.token .identifier, name) :: rest))
        (written list') changes ∧ wordsOf list' = (.identifier, name) :: words' ∧ Fits (before ++ list') := by
  have fits := ready.fits.right
  have form : IsWord name := (fits.isToken (mem_append_right gaps mem_cons_self)).word_of_kind (.inl rfl)
  have kept := turns.keep (ready.next (.of_head (fits.right.parted_word form))) isWords
    fun front start split nonempty boundary =>
      readArrayHead_eq_none_of_name fits ready.quiet noWords unread (by simpa using split) nonempty boundary
  simpa [noWords] using kept

theorem Ready.skipGaps {before gaps rest : List Piece} {text' : Text} {changes : List SizeChange}
    (ready : Ready before (gaps ++ (.token .identifier, name) :: rest)) (noWords : wordsOf gaps = [])
    (grows : Grows ((written gaps).getLast?.or (written before).getLast?) (name ++ written rest) text' changes) :
    Grows (written before).getLast? (written (gaps ++ (.token .identifier, name) :: rest)) (written gaps ++ text')
      changes := by
  rw [written_append, written_cons]
  exact .skips (fun front start split nonempty _ =>
    readArrayHead_eq_none_of_gaps ready.fits.right ready.quiet noWords split nonempty) grows

theorem Turns.indices (derived : Indices start tokens dims stop)
    (turns : Turns after after') : Turns (tokens.map wordOf ++ after) (tokens.map wordOf ++ after') := by
  induction derived using Indices.rec (motive_1 := fun _ _ _ _ => True) (motive_3 := fun _ _ _ => True) with
  | nil => exact turns
  | cons opens inside closes _ _ ih =>
    simp only [map_append, map_cons, cons_append, append_assoc]
    refine .sign (by rw [opens]; rfl) (.pass inside.nest.allow (.of_kind closes (by decide)) ?_)
    exact .sign (by rw [closes]; rfl) ih
  | _ => trivial

/-! ## Lists in braces -/

theorem braces_of_list (derived : Initializer tokens (.list elements span)) :
    ∃ opening inner closing, tokens = opening :: inner ++ [closing] ∧ opening.kind = .leftBrace ∧
      closing.kind = .rightBrace ∧ Nest true (inner.map wordOf) := by
  cases derived with
  | @empty opening closing opens closes => exact ⟨opening, [], closing, rfl, opens, closes, .nil⟩
  | list opens inner closes => exact ⟨_, _, _, rfl, opens, closes, inner.nest⟩

theorem NamedHead.getLast?_written {stop old middle : Text} {dims after behind mid rest : List Piece}
    {head : ArrayHead} (form : NamedHead name dims after head stop old middle behind mid rest) (front : List Piece) :
    (written (front ++ mid)).getLast? = some '\x7b' := by
  obtain ⟨_, isMid⟩ := getLast?_eq_some_iff.mp form.last
  simp [isMid, getLast?_append]

theorem Ready.exists_headAt {before gaps dims after : List Piece}
    (ready : Ready before (gaps ++ (.token .identifier, name) :: (dims ++ after))) (noWords : wordsOf gaps = [])
    (nest : Nest true (wordsOf dims)) {sign : Text} {opening closing : Token} (closes : closing.kind = .rightBrace)
    (derived : Initializer (opening :: tokens ++ [closing]) (.list elements span))
    (isAfter : wordsOf after = (.assign, sign) :: wordOf opening :: (tokens.map wordOf ++ wordOf closing :: words))
    {head : ArrayHead} {stop : Text} (found : readArrayHead (name ++ written (dims ++ after)) = some (head, stop)) :
    ∃ old middle behind mid rest, NamedHead name dims after head stop old middle behind mid rest ∧
      wordsOf mid = [(.assign, sign), wordOf opening] ∧ wordsOf rest = tokens.map wordOf ++ wordOf closing :: words ∧
      Ready (before ++ (gaps ++ (.token .identifier, name) :: (dims ++ mid))) rest ∧
      isWordBoundary ((written gaps).getLast?.or (written before).getLast?) old.head? = true ∧
      ∀ size, sizeValue head.digits = .ok size → growth? head (written rest) =
          .ok (if elements.length ≤ size then none else some ⟨head.name, size, elements.length⟩) := by
  have fits := ready.fits.right
  have ends : ∀ word rest, wordsOf after = word :: rest → word.1.isSign = true ∧ word.1 ≠ .leftBracket := by
    intro word rest split
    rw [isAfter] at split
    obtain ⟨rfl, -⟩ := List.cons.inj split
    exact ⟨rfl, TokenKind.noConfusion⟩
  obtain ⟨old, middle, behind, mid, rest, form⟩ := exists_namedHead fits.right ready.quiet.right.tail nest ends found
  have split := isAfter
  rw [form.isAfter, wordsOf_append, form.opening] at split
  obtain ⟨isSign, split⟩ := List.cons.inj split
  obtain ⟨isOpening, isRest⟩ := List.cons.inj split
  have isBetween : wordsOf mid = [(.assign, sign), wordOf opening] := by rw [form.opening, isSign, isOpening]
  obtain ⟨front, isMid⟩ := getLast?_eq_some_iff.mp form.last
  have opened : gaps ++ (Lexeme.token .identifier, name) :: (dims ++ after) =
      (gaps ++ (Lexeme.token .identifier, name) :: (dims ++ front)) ++ (.token .leftBrace, ['\x7b']) :: rest := by
    rw [form.isAfter, isMid]
    simp
  have next : Ready (before ++ (gaps ++ (.token .identifier, name) :: (dims ++ mid))) rest := by
    rw [opened] at ready
    have next := ready.next (.of_last (by rintro c ⟨⟩; rfl))
    rw [isMid]
    simpa using next
  refine ⟨old, middle, behind, mid, rest, form, isBetween, isRest, next, ?_, fun size sized => ?_⟩
  · obtain ⟨_, _, _, -, isOld⟩ := form.text.shape
    obtain ⟨_, _, isName⟩ := exists_cons_of_ne_nil (fits.isToken (mem_append_right gaps mem_cons_self)).ne_nil
    have starts : old.head? = name.head? := by rw [isOld, form.named, isName]; rfl
    rw [starts]
    exact ready.boundary noWords
  · obtain ⟨inner, list, rfl, isInner, isList⟩ := wordsOf_eq_append isRest
    obtain ⟨gaps', list, rfl, noWords', -⟩ := wordsOf_eq_cons isList
    have isClosing : closing.value.toList = ['\x7d'] := by
      have token := @Fits.isToken _ next.fits closing.kind closing.value.toList (by simp)
      rw [closes] at token
      exact token.sign rfl
    have shape : inner ++ (gaps' ++ (Lexeme.token closing.kind, closing.value.toList) :: list) =
        (inner ++ gaps') ++ (Lexeme.token .rightBrace, ['\x7d']) :: list := by simp [closes, isClosing]
    have fitsRest : Fits ((inner ++ gaps') ++ (Lexeme.token .rightBrace, ['\x7d']) :: list) := shape ▸ next.fits.right
    have quietRest : Quiet ((inner ++ gaps') ++ (Lexeme.token .rightBrace, ['\x7d']) :: list) := shape ▸ next.quiet
    have isWords : wordsOf (inner ++ gaps') = tokens.map wordOf := by simp [isInner, noWords']
    rw [shape]
    refine growth?_eq_ok sized (count_elements derived isWords fitsRest quietRest.left fun empty => ?_)
    -- an empty list holds no comment
    have unbroken : Unbroken ((Lexeme.token .leftBrace, ['\x7b']) :: _) := (opened ▸ ready.unbroken).right
    rw [shape] at unbroken
    have bare := unbroken.1 (.rightBrace, ['\x7d']) (by rw [wordsOf_append, empty]; rfl) rfl
    exact bare.blank fitsRest.left.sound empty

/-! ## Definitions with lists -/

section Lists

variable {name sign opening closing : Token} {inner : List Token} {elements : List InitVal} {span : Span}
  {after after' : List Word} (named : name.kind = .identifier) (assigns : sign.kind = .assign)
  (opens : opening.kind = .leftBrace) (closes : closing.kind = .rightBrace) (nest : Nest true (inner.map wordOf))
  (derived : Initializer (opening :: inner ++ [closing]) (.list elements span)) (turns : Turns after after')
include named assigns opens closes nest derived turns

theorem Turns.keepList (sizes : Indices start tokens dims stop)
    (short : ∀ digits further span, dims = .intLit (String.ofList digits) span :: further → IsInteger digits →
      AllDigits digits → ∃ size : Int, sizeValue digits = .ok size ∧ elements.length ≤ size) :
    Turns ((name :: tokens ++ sign :: (opening :: inner ++ [closing])).map wordOf ++ after)
      ((name :: tokens ++ sign :: (opening :: inner ++ [closing])).map wordOf ++ after') := by
  have behind : Turns (inner.map wordOf ++ wordOf closing :: after) (inner.map wordOf ++ wordOf closing :: after') :=
    .pass nest (.of_kind closes (by decide)) (.sign (by rw [closes]; rfl) turns)
  have whole : Turns
      (tokens.map wordOf ++ wordOf sign :: wordOf opening :: (inner.map wordOf ++ wordOf closing :: after))
      (tokens.map wordOf ++ wordOf sign :: wordOf opening :: (inner.map wordOf ++ wordOf closing :: after')) :=
    .indices sizes (.sign (by rw [assigns]; rfl) (.sign (by rw [opens]; rfl) behind))
  have isName : wordOf name = (.identifier, name.value.toList) := by rw [wordOf, named]
  have isSign : wordOf sign = (.assign, sign.value.toList) := by rw [wordOf, assigns]
  simp only [map_append, map_cons, cons_append, append_assoc, map_nil, nil_append, isName, isSign] at whole ⊢
  intro before list ready isWords
  obtain ⟨gaps, rest, rfl, noWords, isRest⟩ := wordsOf_eq_cons isWords
  cases found : readArrayHead (name.value.toList ++ written rest) with
  | none => exact whole.keepName ready noWords isRest found
  | some read =>
    obtain ⟨head, _⟩ := read
    obtain ⟨sizes', rest, rfl, isSizes, isAfter⟩ := wordsOf_eq_append isRest
    obtain ⟨_, _, _, mid, _, form, isBetween, isRest, next, boundary, growth⟩ :=
      ready.exists_headAt noWords (isSizes ▸ sizes.nest.allow) closes derived isAfter found
    obtain ⟨sizeSpan, _, _, others, isFirst, -, -⟩ := sizes.size (isSizes.symm.trans form.sized)
    have member : (Lexeme.token .integerLiteral, head.digits) ∈ sizes' := mem_wordsOf (by simp [form.sized])
    have token := @Fits.isToken _ next.fits .integerLiteral head.digits (by simp [member])
    obtain ⟨size, sized, fitting⟩ := short head.digits others sizeSpan isFirst token.isInteger form.digits
    obtain ⟨rest', changes, grows, isWords', fits'⟩ := behind _ _ next isRest
    refine ⟨gaps ++ (.token .identifier, name.value.toList) :: (sizes' ++ mid ++ rest'), changes, ?_, ?_, ?_⟩
    · have last := form.getLast?_written (before ++ (gaps ++ (.token .identifier, name.value.toList) :: sizes'))
      simp only [append_assoc, cons_append] at last
      rw [last] at grows
      have kept := Grows.head boundary (form.isStop ▸ form.text) (growth size sized) grows
      rw [if_pos fitting, regrown, ← form.whole] at kept
      simpa [form.isAfter] using ready.skipGaps noWords (by simpa [form.isAfter] using kept)
    · simp [noWords, isSizes, isBetween, isWords']
    · simpa using fits'

theorem Turns.growList {left right : Token} {inside more : List Token} {further : List Expr}
    {sizeSpan : Span} (isLeft : left.kind = .leftBracket)
    (literal : ExprAt 1 inside (.intLit number sizeSpan)) (isRight : right.kind = .rightBracket)
    (others : Indices start more further stop) (unindexed : ∀ dim ∈ further, dim.isUnindexed = true)
    (long : IsInteger number.toList → AllDigits number.toList ∧
      ∃ size : Int, sizeValue number.toList = .ok size ∧ size < elements.length) :
    Turns ((name :: (left :: inside ++ right :: more) ++ sign :: (opening :: inner ++ [closing])).map wordOf ++ after)
      (wordOf name :: wordOf left :: (.integerLiteral, decimalText elements.length) :: wordOf right ::
        (more.map wordOf ++ wordOf sign :: (opening :: inner ++ [closing]).map wordOf) ++ after') := by
  have behind : Turns (inner.map wordOf ++ wordOf closing :: after) (inner.map wordOf ++ wordOf closing :: after') :=
    .pass nest (.of_kind closes (by decide)) (.sign (by rw [closes]; rfl) turns)
  have isName : wordOf name = (.identifier, name.value.toList) := by rw [wordOf, named]
  have isSign : wordOf sign = (.assign, sign.value.toList) := by rw [wordOf, assigns]
  have isOpened : wordOf left = (.leftBracket, left.value.toList) := by rw [wordOf, isLeft]
  have isClosed : wordOf right = (.rightBracket, right.value.toList) := by rw [wordOf, isRight]
  have isBrace : wordOf opening = (.leftBrace, opening.value.toList) := by rw [wordOf, opens]
  intro before list ready isWords
  -- the literal does not stand in parentheses
  obtain ⟨token, rfl, isLiteral, isWritten⟩ : ∃ token, inside = [token] ∧ token.kind = .integerLiteral ∧
      token.value = number := by
    rcases literal.literal with alone | wrapped
    · exact alone
    · obtain ⟨kind, isKind, within⟩ := wrapped .leftBracket (.inl rfl)
      refine absurd (within.trans ?_) (ready.unwrapped kind isKind)
      rw [isWords]
      refine ⟨[name.kind],
        (right :: more ++ sign :: (opening :: inner ++ [closing])).map (·.kind) ++ after.map (·.1), ?_⟩
      simp [isLeft, wordOf, Function.comp_def]
  have isSize : wordOf token = (.integerLiteral, number.toList) := by rw [wordOf, isLiteral, isWritten]
  simp only [map_append, map_cons, cons_append, append_assoc, map_nil, nil_append,
    isName, isSign, isOpened, isClosed, isSize] at isWords ⊢
  obtain ⟨gaps, rest, rfl, noWords, isRest⟩ := wordsOf_eq_cons isWords
  have member : (Lexeme.token .integerLiteral, number.toList) ∈ rest := mem_wordsOf (by simp [isRest])
  have integer := ready.fits.isToken (mem_append_right _ (mem_append_right _ (mem_cons_of_mem _ member)))
  obtain ⟨digits, size, sized, exceeds⟩ := long integer.isInteger
  obtain ⟨⟨head, _⟩, found⟩ := exists_readArrayHead ready.fits.right.right ready.quiet.right.tail
    ready.unbroken.right others unindexed (isBrace ▸ isRest) digits
  rw [← cons_append, ← cons_append, ← cons_append] at isRest
  obtain ⟨sizes, rest, rfl, isSizes, isAfter⟩ := wordsOf_eq_append isRest
  have nestSizes : Nest true (wordsOf sizes) := by
    rw [isSizes]
    exact .group .bracket (.plain rfl .nil) others.nest.allow
  obtain ⟨old, middle, behind', mid, _, form, isBetween, isRest, next, boundary, growth⟩ :=
    ready.exists_headAt noWords nestSizes closes derived isAfter found
  have same := form.sized.symm.trans isSizes
  simp only [List.cons.injEq, Prod.mk.injEq, true_and] at same
  obtain ⟨isLeft', isDigits, isRight', isBehind⟩ := same
  obtain ⟨rest', changes, grows, isWords', fits'⟩ := behind _ _ next isRest
  obtain ⟨passed, isSuffix⟩ := form.isBehind
  refine ⟨gaps ++ (.token .identifier, name.value.toList) :: (.token .leftBracket, ['[']) ::
    (.token .integerLiteral, decimalText elements.length) :: (.token .rightBracket, [']']) :: (behind' ++ mid ++ rest'),
    ⟨head.name, size, elements.length⟩ :: changes, ?_, ?_, ?_⟩
  · have last := form.getLast?_written (before ++ (gaps ++ (.token .identifier, name.value.toList) :: sizes))
    simp only [append_assoc, cons_append] at last
    rw [last] at grows
    have grown := Grows.head boundary (form.isStop ▸ form.text) (growth size (isDigits ▸ sized)) grows
    rw [if_neg (Int.not_le.mpr exceeds)] at grown
    have text' : regrown head old (some ⟨head.name, size, elements.length⟩) ++ middle ++ written rest' =
        name.value.toList ++
          '[' :: (decimalText elements.length ++ ']' :: (written (behind' ++ mid) ++ written rest')) := by
      rw [← form.further, regrown, sizedName, form.named]
      simp
    rw [← form.whole, text'] at grown
    simpa [form.isAfter] using ready.skipGaps noWords (by simpa [form.isAfter] using grown)
  · simp [noWords, isBehind, isBetween, isWords', isLeft', isRight']
  · rw [← isSuffix] at fits'
    have resized := @Fits.resize (before ++ gaps) passed (behind' ++ mid ++ rest') name.value.toList
      (by simpa using fits') elements.length
    simpa using resized

end Lists

/-! ## Definitions -/

theorem exists_size (form : IsInteger number.toList) (all : AllDigits number.toList)
    (short : number.toList.length ≤ digitLimit) :
    ∃ value size : Int, Literal.intValue number = .ok value ∧ sizeValue number.toList = .ok size ∧ value ≤ size ∧
      (Literal.isDecimal number = true → value = size) := by
  have some : number.toList ≠ [] := by
    intro empty
    rw [empty] at form
    cases form
  obtain ⟨value, read, low, same⟩ := Literal.intValue_digits form all short
  exact ⟨value, _, read, Radix.readInt_decimal some all short, Int.ofNat_le.mpr low,
    fun decimal => congrArg Int.ofNat (same decimal)⟩

theorem Turns.keepDefinition (derived : Definition tokens var) (repairable : var.Repairable)
    (fits : Violations.arrayBounds var = []) (ends : Ends after)
    (turns : Turns after after') : Turns (tokens.map wordOf ++ after) (tokens.map wordOf ++ after') := by
  cases derived with
  | plain named sizes => exact .pass (.plain (by rw [named]; rfl) sizes.nest.allow) ends turns
  | @initialized name sign tokens more dims stop init named sizes assigns initializer =>
    cases init with
    | expr expr =>
      have nest : Nest true (wordOf name :: tokens.map wordOf) := .plain (by rw [named]; rfl) sizes.nest.allow
      cases initializer with
      | expr inside =>
        have passed : Turns (wordOf sign :: (more.map wordOf ++ after))
            (wordOf sign :: (more.map wordOf ++ after')) :=
          .sign (by rw [assigns]; rfl) (.pass inside.nest.allow ends turns)
        simpa using Turns.pass nest (.assign assigns inside) passed
    | list =>
      obtain ⟨_, _, _, rfl, opens, closes, nest⟩ := braces_of_list initializer
      refine .keepList named assigns opens closes nest initializer turns sizes ?_
      rintro digits further span rfl form all
      have text : (String.ofList digits).toList = digits := String.toList_ofList
      rw [← text] at form all
      obtain ⟨_, size, read, sized, low, -⟩ := exists_size form all (repairable.1 all)
      have fitting := (Violations.arrayBounds_eq_nil (by rfl) (by rfl) read).mp fits
      exact ⟨size, text ▸ sized, fitting.trans low⟩

theorem exists_grown (derived : Definition tokens var) (repairable : var.Repairable)
    (exceeds : Violations.arrayBounds var ≠ []) :
    ∃ words', (∀ after after', Turns after after' → Turns (tokens.map wordOf ++ after) (words' ++ after')) ∧
      ∀ tokens', tokens'.map wordOf = words' → ∃ var', Definition tokens' var' ∧ var'.shape = var.grown.shape := by
  obtain ⟨number, sizeSpan, further, elements, listSpan, isArray, isList⟩ := Violations.exists_of_arrayBounds exceeds
  cases derived with
  | plain => cases isList
  | @initialized name sign tokens more dims stop init named sizes assigns initializer =>
    obtain rfl : dims = .intLit number sizeSpan :: further := isArray
    obtain rfl : init = .list elements listSpan := Option.some.inj isList
    obtain ⟨_, _, _, rfl, opens, closes, nest⟩ := braces_of_list initializer
    obtain ⟨decimal, unindexed, -⟩ := repairable.2 exceeds
    cases sizes with
    | @cons _ _ left right inside others _ _ isLeft literal isRight indices =>
      refine ⟨_, fun after after' turns => .growList named assigns opens closes nest initializer turns isLeft literal
        isRight indices unindexed fun form => ?_, fun tokens' same => ?_⟩
      · have all := Literal.allDigits_of_isDecimal form decimal
        obtain ⟨value, _, read, sized, -, same⟩ := exists_size form all (repairable.1 all)
        obtain rfl := same decimal
        have unfit := (Violations.arrayBounds_eq_nil (by rfl) (by rfl) read).not.mp exceeds
        exact ⟨all, value, sized, Int.not_le.mp unfit⟩
      · obtain ⟨var', derived', shape⟩ := Definition.resize named isLeft isRight indices assigns initializer same
        refine ⟨var', derived', shape.trans ?_⟩
        have isLong := isEmpty_eq_false_iff.mpr exceeds
        have text : String.ofList (decimalText elements.length) = toString elements.length := String.ofList_toList
        simp only [VarDef.grown, isLong, Bool.false_eq_true, if_false, VarDef.shape, Expr.shapes, Expr.shape, text,
          Option.map_some]

def rewriting : Rewriting VarDef.grown VarDef.Repairable where
  Turns := Turns
  sign := Turns.sign
  keyword := Turns.keyword
  pass := Turns.pass
  define := by
    intro tokens var derived repairable
    by_cases fits : Violations.arrayBounds var = []
    · refine ⟨tokens.map wordOf, fun _ _ ends turns => .keepDefinition derived repairable fits ends turns, ?_⟩
      rw [VarDef.grown_of_nil fits]
      exact fun tokens' same => derived.reword same
    · obtain ⟨words', turns, defines⟩ := exists_grown derived repairable fits
      exact ⟨words', fun after after' _ turned => turns after after' turned, defines⟩

/-! ## Programs -/

theorem Turns.nil : Turns [] [] := by
  intro before list ready noWords
  refine ⟨list, [], ?_, noWords, ready.fits⟩
  have skipped := @Grows.skips (written before).getLast? (written list) [] [] [] ?_ .done
  · simpa using skipped
  · intro front start split nonempty _
    have fits : Fits (list ++ []) := by simpa using ready.fits.right
    have quiet : Quiet (list ++ []) := by simpa using ready.quiet
    exact readArrayHead_eq_none_of_next fits quiet (.of_head (by simp)) (by simp [noWords]) (by simp) split nonempty

end Repair

/-! ## Repaired sizes -/

theorem Violations.arrayBounds_shape (var : VarDef) : arrayBounds var.shape = [] ↔ arrayBounds var = [] := by
  obtain ⟨_, dims, init, _, _⟩ := var
  simp only [VarDef.shape, arrayBounds]
  cases dims with
  | nil => simp [Expr.shapes]
  | cons first =>
    cases first <;> rcases init with _ | ⟨_ | _⟩ <;>
      simp only [Expr.shapes, Expr.shape, Option.map_none, Option.map_some, InitVal.shape, InitVal.shapes_eq,
        length_map]
    cases Literal.intValue _ with
    | error => rfl
    | ok => dsimp only; split <;> simp

theorem VarDef.grown_eq (repairable : var.Repairable) (exceeds : Violations.arrayBounds var ≠ []) :
    ∃ number span further elements listSpan, var.dims = .intLit number span :: further ∧
      var.init = some (.list elements listSpan) ∧
      var.grown = { var with dims := .intLit (toString elements.length) span :: further } ∧
      (toString elements.length).toList.length ≤ digitLimit := by
  obtain ⟨number, span, further, elements, listSpan, isArray, isList⟩ := Violations.exists_of_arrayBounds exceeds
  have isLong : (Violations.arrayBounds var).isEmpty = false := isEmpty_eq_false_iff.mpr exceeds
  simp only [Repairable, isArray, isList] at repairable
  refine ⟨number, span, further, elements, listSpan, isArray, isList, ?_, (repairable.2 exceeds).2.2⟩
  simp only [grown, isArray, isList, isLong, Bool.false_eq_true, if_false]

theorem VarDef.arrayBounds_grown (repairable : var.Repairable) : Violations.arrayBounds var.grown = [] := by
  by_cases fits : Violations.arrayBounds var = []
  · rwa [grown_of_nil fits]
  · obtain ⟨_, _, _, _, _, -, isList, grown, short⟩ := grown_eq repairable fits
    rw [grown, Violations.arrayBounds_eq_nil (by rfl) (by exact isList) (Literal.intValue_toString short)]

theorem Expr.any_isOverlong_shapes (dims : List Expr) : (shapes dims).any isOverlong = dims.any isOverlong := by
  rw [shapes_eq, any_map]
  congr
  funext expr
  cases expr <;> rfl

theorem VarDef.overlong_of_grown (repairable : var.Repairable)
    (overlong : var.grown.dims.any Expr.isOverlong = true) : var.dims.any Expr.isOverlong = true := by
  by_cases fits : Violations.arrayBounds var = []
  · rwa [grown_of_nil fits] at overlong
  · obtain ⟨_, _, _, elements, _, isArray, -, grown, short⟩ := grown_eq repairable fits
    have readable : Literal.isOverlong (toString elements.length) = false := by
      simp only [Literal.isOverlong, Bool.and_eq_false_iff, decide_eq_false_iff_not]
      exact .inr (Nat.not_lt.mpr short)
    rw [grown, any_cons, Expr.isOverlong, readable, Bool.false_or] at overlong
    rw [isArray, any_cons, overlong, Bool.or_true]

/-- The text of a program in which the repair of arrays finds what the program says. No bracket and no comma
stands in a comment, no comment comes between the words of a head, no size is alone in parentheses, and all
definitions can be repaired. -/
structure CompUnit.Legible (text : Text) (unit : CompUnit) : Prop where
  quiet : Quiet (pieces text)
  unbroken : Repair.Unbroken (pieces text)
  unwrapped : Repair.Unwrapped (wordsOf (pieces text))
  repairable : ∀ var ∈ unit.defs, var.Repairable

namespace CompUnit

theorem not_bracket_of_topLevel {items : List Item} (derived : TopLevel tokens items) :
    ∀ token ∈ tokens.head?, token.kind ≠ .leftBracket := by
  cases derived with
  | nil => simp
  | decl declares =>
    obtain ⟨first, _, rfl, starts⟩ := Parser.Declaring_starts declares
    rintro token head isBracket
    obtain rfl : first = token := by simpa using head
    rw [isBracket] at starts
    revert starts
    decide
  | func defines =>
    cases defines with
    | @mk type _ _ _ _ _ _ _ _ _ _ typed _ _ _ _ _ _ _ =>
      rintro token head isBracket
      obtain rfl : type = token := by simpa using head
      rw [isBracket] at typed
      cases typed

theorem exists_repair {file : String} {text : Text} {unit : CompUnit} (parsed : ofText file text = .ok unit)
    (legible : unit.Legible text) :
    ∃ text' changes unit', Repair.resizeAll text = .ok (text', changes) ∧ ofText file text' = .ok unit' ∧
      unit'.shape id = unit.shape VarDef.grown := by
  obtain ⟨clean, derived, nearest⟩ := Fix.words_of_ofText parsed
  obtain ⟨words', turns, formed⟩ := Repair.rewriting.topLevel derived fun item member var within =>
    legible.repairable var (mem_flatMap.mpr ⟨item, member, within⟩)
  have turned : Repair.Turns (wordsOf (pieces text)) words' := by
    have turned := turns [] [] trivial Repair.Turns.nil
    rwa [append_nil, append_nil, map_wordOf_wordsAt] at turned
  have ready : Repair.Ready [] (pieces text) := by
    refine { fits := ⟨by simp [written_pieces], clean⟩, quiet := legible.quiet, parted := .of_last (by simp)
             led := ?_, unbroken := legible.unbroken, unwrapped := legible.unwrapped }
    intro word first isBracket
    rw [← map_wordOf_wordsAt file [], head?_map] at first
    obtain ⟨token, isFirst, rfl⟩ := Option.mem_map.mp first
    exact absurd isBracket (not_bracket_of_topLevel derived token isFirst)
  obtain ⟨list', changes, grows, isWords', fits'⟩ := turned [] (pieces text) ready rfl
  rw [nil_append] at fits'
  have scanned' : Token.scan file (written list') =
      .ok (wordsAt file [] list' ++ [tokenAfter file (written list') .endOfInput []]) := by
    refine scan_eq_ok_iff.mpr ⟨?_, by rw [fits'.pieces]⟩
    rw [Clean, fits'.pieces]
    exact fits'.sound
  obtain ⟨items', derived', shapes⟩ := formed (wordsAt file [] list') (by rw [map_wordOf_wordsAt, isWords'])
  have plain' := Fix.plain_wordsAt scanned'
  rw [fits'.pieces] at plain'
  have parsed' := @ofTokens_of_program file _ (tokenAfter file (written list') .endOfInput []) rfl plain' items'
    derived' (Item.nearestElse_of_shapes shapes nearest)
  refine ⟨written list', changes, _, Repair.resizeAll_of_grows ?_, (Fix.ofText_of_scan scanned').trans parsed', shapes⟩
  rwa [written_pieces] at grows

section Repaired

variable {unit unit' : CompUnit} (same : unit'.shape id = unit.shape VarDef.grown)
  (repairable : ∀ var ∈ unit.defs, var.Repairable)
include same repairable

theorem arrayBounds_of_repair {var' : VarDef} (member : var' ∈ unit'.defs) : Violations.arrayBounds var' = [] := by
  obtain ⟨var, isVar, shape⟩ := exists_def_of_shape same member
  rw [← Violations.arrayBounds_shape, shape, Violations.arrayBounds_shape]
  exact VarDef.arrayBounds_grown (repairable var isVar)

theorem overlong_of_repair (overlong : (Node.unit unit').Overlong) : (Node.unit unit).Overlong := by
  obtain ⟨part, isPart, isLong⟩ := overlong
  cases part with
  | varDef var' =>
    obtain ⟨var, isVar, shape⟩ := exists_def_of_shape same (Node.mem_walk_varDef.mp isPart)
    refine ⟨.varDef var, Node.mem_walk_varDef.mpr isVar, ?_⟩
    have dims : Expr.shapes var'.dims = Expr.shapes var.grown.dims := congrArg VarDef.dims shape
    simp only [Node.hasOverlongDim] at isLong ⊢
    exact VarDef.overlong_of_grown (repairable var isVar) (by rwa [← Expr.any_isOverlong_shapes, ← dims,
      Expr.any_isOverlong_shapes])
  | param param' =>
    obtain ⟨param, isParam, shape⟩ := exists_param_of_shape same (Node.mem_walk_param.mp isPart)
    refine ⟨.param param, Node.mem_walk_param.mpr isParam, ?_⟩
    have dims : Expr.shapes param'.dims = Expr.shapes param.dims := congrArg Param.dims shape
    simp only [Node.hasOverlongDim] at isLong ⊢
    rwa [← Expr.any_isOverlong_shapes, ← dims, Expr.any_isOverlong_shapes]
  | _ => cases isLong

end Repaired

/-- The repair of arrays settles what is reported of them and changes nothing else. Where the text of a program
is legible, the repaired text is a program again. It is the program with the number of elements as first
dimension of each array whose list was too long, in all but places. If the text has an analysis, the repaired
text has one too, and no list in it is too long. -/
theorem repair_settles_arrays (file : String) (text : Text) (unit : CompUnit)
    (parsed : ofText file text = .ok unit) (legible : unit.Legible text) :
    ∃ text' changes unit', Repair.resizeAll text = .ok (text', changes) ∧ ofText file text' = .ok unit' ∧
      unit'.shape id = unit.shape VarDef.grown ∧
      ∀ (settings : CheckSettings) (table : ExplanationTable),
        (∃ analysis, analyze file text settings table = .ok analysis) →
          ∃ analysis, analyze file text' settings table = .ok analysis ∧
            ∀ diagnostic ∈ analysis.diagnostics, diagnostic.code ≠ .arraySizeOverflow := by
  obtain ⟨text', changes, unit', repaired, parsed', same⟩ := exists_repair parsed legible
  refine ⟨text', changes, unit', repaired, parsed', same, fun settings table analyzed => ?_⟩
  have sound : ¬ (Node.unit unit').Overlong := by
    intro overlong
    refine analyze_isOk_iff.mp analyzed ⟨unit, parsed, ?_⟩
    exact overlong_of_repair same legible.repairable overlong
  obtain ⟨analysis, analyzed'⟩ : ∃ analysis, analyze file text' settings table = .ok analysis := by
    refine analyze_isOk_iff.mpr ?_
    rintro ⟨other, isOther, overlong⟩
    obtain rfl : unit' = other := Except.ok.inj (parsed'.symm.trans isOther)
    exact sound overlong
  refine ⟨analysis, analyzed', ?_⟩
  obtain ⟨_, linked, rfl⟩ := exists_program_of_analyze parsed' analyzed'
  intro diagnostic member isOverflow
  obtain ⟨report, isReport, rfl⟩ := mem_map.mp member
  rw [CheckSettings.present_code] at isOverflow
  have isOverflow : report.problem.code = .arraySizeOverflow := isOverflow
  rcases Program.cases_of_violations (aligned_of_ofText parsed') linked isReport with
    ⟨_, isSite, broken⟩ | ⟨_, -, -, rfl⟩
  · rw [isOverflow] at broken
    cases broken with
    | arrayOverflow isArray isList read more =>
      have isDef := Node.mem_walk_varDef.mp (mem_map_of_mem isSite)
      have fits := arrayBounds_of_repair same legible.repairable isDef
      exact absurd ((Violations.arrayBounds_eq_nil isArray isList read).mp fits) (Int.not_le.mpr more)
  · cases isOverflow

/-- A row too many in a table, with a comment behind it. -/
theorem repair_settles_arrays_rows :
    ∃ unit, ofText "t.sy" "int a[1][2]=\x7b\x7b3\x7d,4\x7d;//5".toList = .ok unit ∧
      unit.Legible "int a[1][2]=\x7b\x7b3\x7d,4\x7d;//5".toList ∧
      ∃ unit', Repair.resizeAll "int a[1][2]=\x7b\x7b3\x7d,4\x7d;//5".toList =
          .ok ("int a[2][2]=\x7b\x7b3\x7d,4\x7d;//5".toList, [⟨['a'], 1, 2⟩]) ∧
        ofText "t.sy" "int a[2][2]=\x7b\x7b3\x7d,4\x7d;//5".toList = .ok unit' ∧
        unit'.shape id = unit.shape VarDef.grown := by
  have cut : pieces "int a[1][2]=\x7b\x7b3\x7d,4\x7d;//5".toList =
      [(.token .intKeyword, ['i', 'n', 't']), (.gap, [' ']), (.token .identifier, ['a']),
        (.token .leftBracket, ['[']), (.token .integerLiteral, ['1']), (.token .rightBracket, [']']),
        (.token .leftBracket, ['[']), (.token .integerLiteral, ['2']), (.token .rightBracket, [']']),
        (.token .assign, ['=']), (.token .leftBrace, ['\x7b']), (.token .leftBrace, ['\x7b']),
        (.token .integerLiteral, ['3']), (.token .rightBrace, ['\x7d']), (.token .comma, [',']),
        (.token .integerLiteral, ['4']), (.token .rightBrace, ['\x7d']), (.token .semicolon, [';']),
        (.gap, ['/', '/', '5'])] := by
    rw [String.toList_ofList]
    decide +kernel
  have resized : Repair.resizeAll "int a[1][2]=\x7b\x7b3\x7d,4\x7d;//5".toList =
      .ok ("int a[2][2]=\x7b\x7b3\x7d,4\x7d;//5".toList, [⟨['a'], 1, 2⟩]) := by
    cbv
  obtain ⟨unit, parsed, repairable⟩ : ∃ unit, ofText "t.sy" "int a[1][2]=\x7b\x7b3\x7d,4\x7d;//5".toList = .ok unit ∧
      ∀ var ∈ unit.defs, var.Repairable := by
    refine ⟨_, by rw [String.toList_ofList]; cbv, fun var member => ?_⟩
    obtain rfl := mem_singleton.mp member
    exact ⟨fun _ => by decide, fun _ => ⟨by decide, by decide, by decide⟩⟩
  have legible : unit.Legible "int a[1][2]=\x7b\x7b3\x7d,4\x7d;//5".toList := by
    refine { quiet := ?_, unbroken := ?_, unwrapped := ?_, repairable }
    · rw [cut]
      simp [Quiet, isBracketOrComma, isOpeningBracket, closingBracket?, isClosingBracket]
    · rw [cut]
      simp [Repair.Unbroken, Repair.Bare, Repair.isTied, wordsOf]
    · rw [cut]
      rintro kind (rfl | rfl) <;> decide
  obtain ⟨_, _, unit', repaired, parsed', same, -⟩ := repair_settles_arrays _ _ unit parsed legible
  rw [resized] at repaired
  obtain ⟨rfl, rfl⟩ := Prod.mk.inj (Except.ok.inj repaired)
  exact ⟨unit, parsed, legible, unit', resized, parsed', same⟩

end CompUnit

end SysYTools
