import SysYTools.Proofs.Token.Partner
import SysYTools.Proofs.Tree.Acceptance

/-!
The elements of an initializer in raw text. The parts between the commas of its text are as many as its
elements.
-/

namespace SysYTools

open List Lexis

variable {depth : Int} {elements : List InitVal} {list : List Piece} {text : Text} {tokens : List Token}
  {words : List Word}

namespace Text

/-- The depth behind a character. -/
def depthAfter (depth : Int) (c : Char) : Int :=
  if isOpeningBracket c then depth + 1 else if isClosingBracket c then depth - 1 else depth

def glue (run : Text) : List Text → List Text
  | [] => [run]
  | part :: more => (run ++ part) :: more

theorem glue_glue (first second : Text) (parts : List Text) :
    glue first (glue second parts) = glue (first ++ second) parts := by
  cases parts <;> simp [glue]

theorem partsAt_cons (isSeparator : Char → Bool) (depth : Int) (c : Char) (rest : Text) :
    partsAt isSeparator depth (c :: rest) =
      if isSeparator c && depthAfter depth c == 0 then [] :: partsAt isSeparator (depthAfter depth c) rest
      else glue [c] (partsAt isSeparator (depthAfter depth c) rest) := by
  have step : partsAt isSeparator depth (c :: rest) =
      if isSeparator c && depthAfter depth c == 0 then [] :: partsAt isSeparator (depthAfter depth c) rest
      else
        match partsAt isSeparator (depthAfter depth c) rest with
        | [] => [[c]]
        | part :: more => (c :: part) :: more := rfl
  rw [step]
  cases partsAt isSeparator (depthAfter depth c) rest <;> rfl

theorem partsAt_ne_nil (isSeparator : Char → Bool) (depth : Int) (text : Text) :
    partsAt isSeparator depth text ≠ [] := by
  cases text with
  | nil => exact cons_ne_nil _ _
  | cons c rest =>
    rw [partsAt_cons]
    split
    · exact cons_ne_nil _ _
    · cases partsAt isSeparator (depthAfter depth c) rest <;> exact cons_ne_nil _ _

theorem partsAt_plain {run : Text} (plain : ∀ c ∈ run, isBracketOrComma c = false) (depth : Int) (text : Text) :
    partsAt (· == ',') depth (run ++ text) = glue run (partsAt (· == ',') depth text) := by
  induction run with
  | nil =>
    obtain ⟨first, _, shape⟩ := exists_cons_of_ne_nil (partsAt_ne_nil (· == ',') depth text)
    rw [nil_append, shape]
    rfl
  | cons c _ ih =>
    obtain ⟨first, others⟩ := forall_mem_cons.mp plain
    simp only [isBracketOrComma, Bool.or_eq_false_iff] at first
    have same : depthAfter depth c = depth := by simp [depthAfter, first]
    rw [cons_append, partsAt_cons, same, first.2, Bool.false_and, if_neg (by simp), ih others, glue_glue]
    rfl

theorem eq_of_partsAt {isSeparator : Char → Bool} {part : Text} (single : partsAt isSeparator depth text = [part]) :
    part = text := by
  induction text generalizing depth part with
  | nil => exact (singleton_injective single).symm
  | cons c rest ih =>
    obtain ⟨_, _, shape⟩ := exists_cons_of_ne_nil (partsAt_ne_nil isSeparator (depthAfter depth c) rest)
    rw [partsAt_cons, shape] at single
    split at single
    · cases single
    · obtain ⟨rfl, rfl⟩ := List.cons.inj single
      rw [ih shape]
      rfl

theorem isBlank_of_strip (empty : text.strip = []) : ∀ c ∈ text, isBlank c = true := by
  have nothing : text.stripLeft = [] := by
    cases shape : text.stripLeft with
    | nil => rfl
    | cons c =>
      obtain ⟨-, -, -, other⟩ := stripLeft_eq shape
      rw [strip, shape, stripRight, dropRightWhile, reverse_eq_nil_iff, dropWhile_eq_nil_iff] at empty
      rw [empty c (by simp)] at other
      cases other
  exact dropWhile_eq_nil_iff.mp nothing

theorem length_splitCommas {c : Char} (member : c ∈ text) (other : isBlank c = false) :
    text.splitCommas.length = (partsAt (· == ',') 0 text).length := by
  rw [splitCommas, splitTopLevel]
  split
  next blank =>
    obtain ⟨_, single, stripped⟩ := map_eq_singleton_iff.mp blank
    rw [eq_of_partsAt single] at stripped
    rw [isBlank_of_strip stripped c member] at other
    cases other
  · rw [length_map]

theorem splitCommas_blank (blank : ∀ c ∈ text, isBlank c = true) : text.splitCommas = [] := by
  have single : partsAt (· == ',') 0 text = [text] := by
    have whole := @partsAt_plain text ?_ 0 []
    · simpa [partsAt, glue] using whole
    · intro c member
      cases found : isBracketOrComma c with
      | false => rfl
      | true =>
        rcases isBracketOrComma_cases found with rfl | rfl | rfl | rfl | rfl | rfl | rfl <;>
          cases blank _ member
  have stripped : text.strip = [] := by
    rw [strip, stripLeft, dropWhile_eq_nil_iff.mpr blank]
    rfl
  rw [splitCommas, splitTopLevel, single, map_singleton, stripped]

end Text

namespace Lexis

open Text

theorem Fits.partsAt_gaps {gaps : List Piece} (fits : Fits gaps) (quiet : Quiet gaps) (none : wordsOf gaps = [])
    (depth : Int) (text : Text) :
    partsAt (· == ',') depth (written gaps ++ text) = glue (written gaps) (partsAt (· == ',') depth text) := by
  refine partsAt_plain ?_ depth text
  intro c member
  obtain ⟨piece, isPiece, within⟩ := mem_flatMap.mp member
  exact quiet piece isPiece (gap_of_wordsOf fits.sound none piece isPiece) c within

theorem Fits.partsAt_nest {commas : Bool} (nest : Nest commas words) (isWords : wordsOf list = words)
    (fits : Fits list) (quiet : Quiet list) (level : 0 ≤ depth) (inner : commas = true → depth ≠ 0) (text : Text) :
    partsAt (· == ',') depth (written list ++ text) = glue (written list) (partsAt (· == ',') depth text) := by
  induction nest generalizing list depth text with
  | nil => exact fits.partsAt_gaps quiet isWords depth text
  | plain isPlain _ ih =>
    obtain ⟨gaps, rest, rfl, none, isRest⟩ := wordsOf_eq_cons isWords
    have token := fits.isToken (mem_append_right gaps mem_cons_self)
    simp only [written_append, written_cons, append_assoc]
    rw [fits.left.partsAt_gaps quiet.left none, partsAt_plain (token.plain isPlain),
      ih isRest fits.right.tail quiet.right.tail level inner, glue_glue, glue_glue, append_assoc]
  | comma _ ih =>
    obtain ⟨gaps, rest, rfl, none, isRest⟩ := wordsOf_eq_cons isWords
    have token := fits.isToken (mem_append_right gaps mem_cons_self)
    obtain rfl := token.sign rfl
    have same : depthAfter depth ',' = depth := rfl
    simp only [written_append, written_cons, append_assoc]
    rw [fits.left.partsAt_gaps quiet.left none, singleton_append, partsAt_cons,
      show TokenKind.comma.signChar = ',' from rfl, same, ih isRest fits.right.tail quiet.right.tail level inner,
      if_neg (by simp [inner rfl]), glue_glue, glue_glue, append_assoc]
  | group encloses _ _ insideHypothesis ih =>
    obtain ⟨_, _, rest, rfl, none, isInside, isRest⟩ := wordsOf_eq_group isWords
    have fitsInside := fits.right.tail
    have quietInside := quiet.right.tail
    obtain ⟨c, d, rfl, rfl, partner, unopened, closes⟩ := encloses.chars
      (fits.isToken (mem_append_right _ mem_cons_self))
      (fitsInside.isToken (mem_append_right _ mem_cons_self))
    have opening : depthAfter depth c = depth + 1 := by simp [depthAfter, isOpeningBracket, partner]
    have closing : depthAfter (depth + 1) d = depth := by simp [depthAfter, isOpeningBracket, unopened, closes]
    have unseparated : (c == ',') = false ∧ (d == ',') = false := by
      constructor
      · rw [beq_eq_false_iff_ne]
        rintro rfl
        cases partner
      · rw [beq_eq_false_iff_ne]
        rintro rfl
        cases closes
    have deeper : 0 ≤ depth + 1 := by omega
    have skipped := insideHypothesis isInside fitsInside.left quietInside.left deeper (fun _ => by omega)
      ([d] ++ (written rest ++ text))
    simp only [written_append, written_cons, append_assoc]
    rw [fits.left.partsAt_gaps quiet.left none, singleton_append, partsAt_cons, opening, skipped,
      singleton_append, partsAt_cons, closing, ih isRest fitsInside.right.tail quietInside.right.tail level inner,
      unseparated.1, unseparated.2, Bool.false_and, Bool.false_and, if_neg (by simp), if_neg (by simp)]
    simp only [glue_glue]

section

variable (nest : Nest false words) (isWords : wordsOf list = words) (fits : Fits list) (quiet : Quiet list)
include nest isWords fits quiet

theorem Fits.partsAt_comma (text : Text) :
    partsAt (· == ',') 0 (written list ++ ',' :: text) = written list :: partsAt (· == ',') 0 text := by
  have same : depthAfter 0 ',' = 0 := rfl
  rw [fits.partsAt_nest nest isWords quiet (Int.le_refl 0) (by simp), partsAt_cons, same]
  simp [glue]

theorem Fits.partsAt_last : partsAt (· == ',') 0 (written list) = [written list] := by
  have single := fits.partsAt_nest nest isWords quiet (Int.le_refl 0) (by simp) []
  simpa [partsAt, glue] using single

end

end Lexis

open Lexis Grammar Text

theorem Lexis.Fits.exists_comma (fits : Fits list) {front back : List Token} {comma : Token}
    (isWords : wordsOf list = (front ++ comma :: back).map wordOf) (separates : comma.kind = .comma) :
    ∃ first rest, list = first ++ (.token .comma, [',']) :: rest ∧ wordsOf first = front.map wordOf ∧
      wordsOf rest = back.map wordOf := by
  rw [map_append, map_cons] at isWords
  obtain ⟨first, _, rfl, isFirst, isOthers⟩ := wordsOf_eq_append isWords
  obtain ⟨gaps, rest, rfl, none, isRest⟩ := wordsOf_eq_cons isOthers
  have token := fits.right.isToken (mem_append_right gaps mem_cons_self)
  rw [separates] at token
  refine ⟨first ++ gaps, rest, ?_, by rw [wordsOf_append, none, append_nil, isFirst], isRest⟩
  rw [append_assoc, separates, token.sign rfl]
  rfl

theorem Grammar.InitializerList.length_partsAt (derived : InitializerList tokens elements)
    (isWords : wordsOf list = tokens.map wordOf) (fits : Fits list) (quiet : Quiet list) :
    (partsAt (· == ',') 0 (written list)).length = elements.length := by
  induction derived using InitializerList.rec (motive_1 := fun _ _ _ => True) generalizing list with
  | single derived =>
    rw [fits.partsAt_last derived.nest isWords quiet]
    rfl
  | more derived separates _ _ ih =>
    obtain ⟨_, _, rfl, isFirst, isRest⟩ := fits.exists_comma isWords separates
    rw [written_append, written_cons, singleton_append,
      fits.left.partsAt_comma derived.nest isFirst quiet.left, length_cons,
      ih isRest fits.right.tail quiet.right.tail, length_cons]
  | _ => trivial

theorem count_elements {opening closing : Token} {span : Span}
    (derived : Initializer (opening :: tokens ++ [closing]) (.list elements span)) {after : List Piece}
    (isWords : wordsOf list = tokens.map wordOf) (fits : Fits (list ++ (.token .rightBrace, ['\x7d']) :: after))
    (quiet : Quiet list) (bare : wordsOf list = [] → ∀ c ∈ written list, isBlank c = true) :
    ∃ place, closeFrom .code ['\x7d'] 0 (written (list ++ (.token .rightBrace, ['\x7d']) :: after)) = some place ∧
      (splitCommas ((written (list ++ (.token .rightBrace, ['\x7d']) :: after)).take place)).length =
        elements.length := by
  have inside : (tokens = [] ∧ elements = []) ∨ InitializerList tokens elements := by
    generalize shape : opening :: tokens ++ [closing] = all at derived
    cases derived with
    | empty =>
      have short := congrArg List.length shape
      simp at short
      exact .inl ⟨short, rfl⟩
    | list _ inner =>
      obtain ⟨-, same⟩ := List.cons.inj shape
      obtain ⟨rfl, -⟩ := append_inj' same rfl
      exact .inr inner
  have nest : Nest true (wordsOf list) := by
    rw [isWords]
    rcases inside with ⟨rfl, -⟩ | inner
    · exact .nil
    · exact inner.nest
  refine ⟨(written list).length, by rw [fits.closeFrom_closing (show closingBracket? '\x7b' = _ from rfl) nest.balanced, Nat.zero_add], ?_⟩
  rw [written_append, take_left]
  rcases inside with ⟨rfl, rfl⟩ | inner
  · rw [splitCommas_blank (bare isWords)]
    rfl
  · obtain ⟨first, _, rfl, -⟩ := Parser.InitializerList_starts inner
    have member : (Lexeme.token first.kind, first.value.toList) ∈ list := by
      refine mem_wordsOf ?_
      rw [isWords]
      exact mem_cons_self
    have token := fits.left.isToken member
    obtain ⟨c, _, split⟩ := exists_cons_of_ne_nil token.ne_nil
    have within : c ∈ written list := mem_flatMap.mpr ⟨_, member, by rw [split]; exact mem_cons_self⟩
    rw [length_splitCommas within (token.not_blank c (by rw [split]; exact mem_cons_self)),
      inner.length_partsAt isWords fits.left quiet]

end SysYTools
