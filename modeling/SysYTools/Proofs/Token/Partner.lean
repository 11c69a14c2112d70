import SysYTools.Proofs.Text.Balance
import SysYTools.Proofs.Token.Signs
import SysYTools.Proofs.Tree.Brackets

/-!
The partner of a bracket in raw text. The search for it reads characters and knows of words only that
comments are none. In a text that is read without problems it passes over every part whose brackets pair up,
so from the first bracket of a group of words it finds the last one.
-/

namespace SysYTools

open List Lexis

variable {opening closing : TokenKind}
variable {after gaps list rest : List Piece} {body closed opened value : Text} {kind : TokenKind}
  {stack : List Char} {words : List Word}

theorem Encloses.chars (encloses : Encloses opening closing)
    (first : IsToken opening opened) (second : IsToken closing closed) :
    ∃ c d, opened = [c] ∧ closed = [d] ∧ closingBracket? c = some d ∧ closingBracket? d = none ∧
      isClosingBracket d = true := by
  cases encloses <;> exact ⟨_, _, first.sign rfl, second.sign rfl, rfl, rfl, rfl⟩

namespace Lexis

open Text

theorem IsToken.plain {kind : TokenKind} {value : Text} (token : IsToken kind value)
    (isPlain : kind.isPlain = true) : ∀ c ∈ value, isBracketOrComma c = false := by
  intro c member
  by_contra found
  obtain ⟨rfl, kindOf⟩ := token.eq_singleton member (by simpa using found)
  rcases isBracketOrComma_cases (by simpa using found) with rfl | rfl | rfl | rfl | rfl | rfl | rfl <;>
    cases kindOf <;> cases isPlain

theorem IsToken.unbracketed (token : IsToken kind value) (other : kind.isBracket = false) :
    ∀ c ∈ value, isOpeningBracket c = false ∧ isClosingBracket c = false := by
  intro c member
  cases found : isBracketOrComma c with
  | false =>
    simp only [isBracketOrComma, Bool.or_eq_false_iff] at found
    exact found.1
  | true =>
    obtain ⟨-, kindOf⟩ := token.eq_singleton member found
    rcases isBracketOrComma_cases found with rfl | rfl | rfl | rfl | rfl | rfl | rfl <;> cases kindOf <;> cases other
    exact ⟨rfl, rfl⟩

/-- The brackets of some words. -/
def bracketsIn (words : List Word) : List Char := words.flatMap (·.2.filter isBracket)

theorem outline_append {run read rest : Text} {brackets : List Char} (unslash : '/' ∉ run)
    (outline : Outline read brackets rest) : Outline (run ++ read) (run.filter isBracket ++ brackets) rest := by
  induction run with
  | nil => exact outline
  | cons c run ih =>
    rw [mem_cons, not_or] at unslash
    cases isBracket : Text.isBracket c with
    | true => simpa [isBracket] using Outline.bracket isBracket (ih unslash.2)
    | false =>
      have code : startsWithComment (c :: (run ++ read ++ rest)) = false := by
        unfold startsWithComment
        split <;> simp_all
      simpa [isBracket] using Outline.other isBracket code (ih unslash.2)

/-- The brackets in words that are read without problems are those outside of comments. -/
theorem Fits.outline (fits : Fits (list ++ after)) :
    Outline (written list) (bracketsIn (wordsOf list)) (written after) := by
  induction list with
  | nil => exact .nil
  | cons piece _ ih =>
    obtain ⟨lexeme, value⟩ := piece
    have outlined := ih fits.tail
    rw [cons_append] at fits
    rw [written_cons]
    rcases fits.sound _ mem_cons_self with isGap | ⟨kind, isToken⟩
    · obtain rfl : lexeme = .gap := isGap
      have gap := fits.gap
      rw [written_append] at gap
      cases gap with
      | @blank c _ blank =>
        simp only [Lexeme.isGapChar, Bool.or_eq_true, beq_iff_eq] at blank
        refine .other ?_ ?_ outlined <;> rcases blank with ((rfl | rfl) | rfl) | rfl <;> rfl
      | line inner ends => exact .line inner ends outlined
      | block inner =>
        rw [append_assoc]
        exact .block inner outlined
    · obtain rfl : lexeme = .token kind := isToken
      rw [wordsOf_token, bracketsIn, flatMap_cons]
      by_cases slash : '/' ∈ value
      · -- a slash is a word of its own, and no comment starts with it
        obtain rfl : value = ['/'] := by
          rcases (fits.isToken mem_cons_self).chars with symbol | chars
          · have all : ∀ entry ∈ symbols, '/' ∈ entry.1 → entry.1 = ['/'] := by simp [symbols]
            exact all _ symbol slash
          · exact absurd (chars _ slash) (by decide)
        have outside := fits.token.2
        rw [written_append] at outside
        refine .other rfl ?_ outlined
        unfold startsWithComment
        split
        next shape => exact absurd (.inl ⟨_, shape.symm⟩) outside
        next shape => exact absurd (.inr ⟨_, shape.symm⟩) outside
        · rfl
      · exact outline_append slash outlined

theorem paired_of_balanced (balanced : Balanced words) (tokens : ∀ word ∈ words, IsToken word.1 word.2) :
    Paired (bracketsIn words) := by
  induction balanced with
  | nil => exact .nil
  | @other kind value rest isOther _ ih =>
    obtain ⟨token, others⟩ := forall_mem_cons.mp tokens
    have none : value.filter isBracket = [] :=
      filter_eq_nil_iff.mpr fun c member => by simp [isBracket, token.unbracketed isOther c member]
    rw [bracketsIn, flatMap_cons, none]
    exact ih others
  | group encloses _ _ insideHypothesis ih =>
    rw [cons_append, forall_mem_cons, forall_mem_append, forall_mem_cons] at tokens
    obtain ⟨first, inside, second, others⟩ := tokens
    obtain ⟨c, d, rfl, rfl, partner, -, closes⟩ := encloses.chars first second
    have opens := (closing_of_partner partner).2.2
    simpa [bracketsIn, isBracket, opens, closes] using Paired.group partner (insideHypothesis inside) (ih others)

theorem wordsOf_eq_group {inside : List Word}
    (split : wordsOf list = (opening, opened) :: inside ++ (closing, closed) :: words) :
    ∃ gaps inner rest, list = gaps ++ (.token opening, opened) :: (inner ++ (.token closing, closed) :: rest) ∧
      wordsOf gaps = [] ∧ wordsOf inner = inside ∧ wordsOf rest = words := by
  obtain ⟨gaps, _, rfl, none, others⟩ := wordsOf_eq_cons split
  obtain ⟨inner, list'', rfl, isInside, others⟩ := wordsOf_eq_append others
  obtain ⟨gaps', rest, rfl, none', isRest⟩ := wordsOf_eq_cons others
  exact ⟨gaps, inner ++ gaps', rest, by simp, none, by rw [wordsOf_append, none', append_nil, isInside], isRest⟩

section Partners

variable {c d : Char} (partner : closingBracket? c = some d) {opening closing : TokenKind}
include partner

theorem Fits.closeFrom_closing (balanced : Balanced (wordsOf list))
    (fits : Fits (list ++ (.token closing, [d]) :: after)) (index : Nat) :
    closeFrom .code [d] index (written (list ++ (.token closing, [d]) :: after)) =
      some (index + (written list).length) := by
  obtain ⟨unopened, closes, -⟩ := closing_of_partner partner
  have paired := paired_of_balanced balanced fun word member => fits.isToken (mem_append_left _ (mem_wordsOf member))
  rw [written_append, fits.outline.closeFrom_eq (paired.foldlM_next? (cons_ne_nil d [])), written_cons]
  exact (Text.closeFrom_closing closes _ _).1 (by simp [bracketStep, unopened, closes])

theorem Fits.closingIndex?_group {left inner right : List Piece} (balanced : Balanced (wordsOf inner))
    (fits : Fits (left ++ (.token opening, [c]) :: (inner ++ (.token closing, [d]) :: right))) :
    (written (left ++ (.token opening, [c]) :: (inner ++ (.token closing, [d]) :: right))).closingIndex?
      (written left).length = some ((written left).length + 1 + (written inner).length) := by
  have outlined := @Outline.bracket c [] (written (inner ++ (.token closing, [d]) :: right)) []
    (by simp [isBracket, closing_of_partner partner]) .nil
  rw [written_append, closingIndex?, drop_left, written_cons, outlined.closeFrom_eq (Pending.opened partner .nil .nil).foldlM_next?]
  exact fits.right.tail.closeFrom_closing partner balanced _

end Partners

end Lexis

end SysYTools
