import SysYTools.Extract.Selection
import SysYTools.Proofs.Fix.Marks
import SysYTools.Proofs.Token.Partner
import SysYTools.Proofs.Tree.Layout

/-!
The parts of a program that are written in braces. A block or an initializer list has braces for its first
and its last word, and the brackets between them pair up. So the search for the partner of a bracket, which
knows nothing of the grammar, leads from the first character of such a part to its last one.
-/

namespace SysYTools

open List Grammar Lexis

variable {span : Span} {tokens : List Token} {file : String} {document : Document}

/-- Blocks and initializer lists. -/
def Node.isBraced : Node → Bool
  | .initList _ _ | .stmt (.block _ _) => true
  | _ => false

/-- The span of a pair of braces among the tokens, with paired brackets between them. -/
inductive InBraces (span : Span) : List Token → Prop where
  | mk (front : List Token) {opening closing : Token} {inner : List Token} (back : List Token) :
      opening.kind = .leftBrace → closing.kind = .rightBrace → Balanced (inner.map wordOf) →
      span = opening.span.through closing.span →
      InBraces span (front ++ opening :: (inner ++ closing :: back))

theorem InBraces.mono {more : List Token} (found : InBraces span tokens)
    (within : tokens <:+: more) : InBraces span more := by
  cases found with
  | mk front back opens closes balanced isSpan =>
    obtain ⟨before, after, rfl⟩ := within
    have longer := InBraces.mk (before ++ front) (back ++ after) opens closes balanced isSpan
    simpa using longer

theorem InBraces.pair {opening closing : Token} {inner : List Token}
    (opens : opening.kind = .leftBrace) (closes : closing.kind = .rightBrace)
    (balanced : Balanced (inner.map wordOf)) :
    InBraces (opening.span.through closing.span) (opening :: inner ++ [closing]) :=
  .mk [] [] opens closes balanced rfl

theorem Node.Derived.inBraces {node : Node} (derived : node.Derived tokens)
    (isBraced : node.isBraced = true) : InBraces node.span tokens := by
  cases derived with
  | initList init =>
    cases init with
    | empty opens closes => exact @InBraces.pair _ _ [] opens closes .nil
    | list opens inside closes => exact .pair opens closes inside.nest.balanced
  | stmt stmt =>
    cases stmt with
    | block opens inside closes => exact .pair opens closes inside.balanced
    | _ => cases isBraced
  | _ => cases isBraced

/-! ## Braces in the text -/

namespace Lexis

theorem Stands.offsetsOf_through {first last : Token}
    {before value before' value' : Text} (stands : Stands file document.text first before value)
    (stands' : Stands file document.text last before' value') :
    document.offsetsOf (first.span.through last.span) = (before.length, before'.length + value'.length) := by
  have starts : before <+: document.text := (prefix_append before value).trans stands.within
  have plain := stands'.isToken.no_feed
  have stops := Document.offsetAt_after document.uri stands'.within
  rw [Text.lastLine_append_of_no_feed before' plain, count_append, count_eq_zero.mpr plain,
    length_append, length_append, Nat.add_zero] at stops
  rw [Document.offsetsOf, stands.span_eq, stands'.span_eq]
  simp only [Span.through, Int.add_sub_cancel, Int.toNat_natCast]
  rw [← Nat.cast_add, Int.toNat_natCast]
  exact Prod.ext (Document.offsetAt_after document.uri starts) stops

end Lexis

theorem InBraces.closingIndex?
    (clean : Clean document.text) (found : InBraces span (wordsAt file [] (pieces document.text))) :
    ∃ first last, document.offsetsOf span = (first, last + 1) ∧
      document.text[first]? = some '\x7b' ∧ document.text[last]? = some '\x7d' ∧
      document.text.closingIndex? first = some last := by
  generalize isWords : wordsAt file [] (pieces document.text) = words at found
  cases found with
  | @mk front opening closing inner back opens closes balanced isSpan =>
    obtain ⟨left, value, _, split, -, shape, others⟩ := wordsAt_split isWords
    obtain ⟨mid, value', right, rfl, isInner, shape', -⟩ := wordsAt_split others
    have stands := stands_of_pieces split shape
    have split' : pieces document.text =
        (left ++ (.token opening.kind, value) :: mid) ++ (.token closing.kind, value') :: right := by
      simpa using split
    have stands' := stands_of_pieces split' (by simpa using shape')
    have opened := stands.isToken
    have closed := stands'.isToken
    rw [opens] at opened split
    rw [closes] at closed split
    obtain rfl : value = ['\x7b'] := opened.sign rfl
    obtain rfl : value' = ['\x7d'] := closed.sign rfl
    have fits : Fits (pieces document.text) := ⟨by rw [written_pieces], clean⟩
    rw [split] at fits
    have isBalanced : Balanced (wordsOf mid) := by rwa [← map_wordOf_wordsAt file, isInner]
    have searched := fits.closingIndex?_group rfl isBalanced
    have isText := (written_pieces document.text).symm.trans (congrArg written split)
    rw [← isText] at searched
    have around : document.text = written left ++ '\x7b' :: (written mid ++ '\x7d' :: written right) := by
      rw [isText]
      simp
    refine ⟨(written left).length, (written left).length + 1 + (written mid).length, ?_, ?_, ?_, searched⟩
    · rw [isSpan, stands.offsetsOf_through stands']
      simp
      omega
    · simp [around]
    · simp [around, Nat.add_assoc, Nat.add_comm 1]

/-- The search for brackets in raw text agrees with the grammar: from the first character of a block or an
initializer list it finds the last one. -/
theorem CompUnit.closingIndexAt_of_isBraced {file : String} {document : Document} {unit : CompUnit}
    (parsed : CompUnit.ofText file document.text = .ok unit) :
    ∀ node ∈ (Node.unit unit).walk, node.isBraced = true →
      ∃ first last : Nat, document.offsetsOf node.span = (first, last + 1) ∧
        document.text[first]? = some '\x7b' ∧ document.text[last]? = some '\x7d' ∧
        document.text.closingIndexAt first = .ok (some last) := by
  obtain ⟨clean, derived, -⟩ := Fix.words_of_ofText parsed
  intro node member isBraced
  have found : InBraces node.span (wordsAt file [] (pieces document.text)) := by
    rcases derived.of_mem_walk member with rfl | ⟨_, inside, part⟩
    · cases isBraced
    · exact (part.inBraces isBraced).mono inside
  obtain ⟨first, last, offsets, opens, closes, searched⟩ := found.closingIndex? clean
  refine ⟨first, last, offsets, opens, closes, ?_⟩
  unfold Text.closingIndexAt
  rw [if_pos (by omega), Int.toNat_natCast, searched]
  rfl

/-- Comments that hold brackets, or marks of other comments, do not mislead the search. -/
theorem CompUnit.closingIndexAt_of_isBraced_comments :
    ∃ unit, CompUnit.ofText "t.sy" "int a[1]=\x7b/*//\x7d*/1\x7d;int f()\x7b//*\x7b\n\x7d".toList = .ok unit ∧
      ((Node.unit unit).walk.filter (·.isBraced)).length = 2 ∧ ∀ node ∈ (Node.unit unit).walk, node.isBraced = true →
        ∃ first last : Nat,
          Document.offsetsOf ⟨"t.sy", "int a[1]=\x7b/*//\x7d*/1\x7d;int f()\x7b//*\x7b\n\x7d".toList⟩ node.span =
            (first, last + 1) ∧
          Text.closingIndexAt "int a[1]=\x7b/*//\x7d*/1\x7d;int f()\x7b//*\x7b\n\x7d".toList first =
            .ok (some last) := by
  have accepted : (CompUnit.ofText "t.sy" "int a[1]=\x7b/*//\x7d*/1\x7d;int f()\x7b//*\x7b\n\x7d".toList).toOption.map
      (fun unit => ((Node.unit unit).walk.filter (·.isBraced)).length) = some 2 := by
    rw [String.toList_ofList]
    decide +kernel
  obtain ⟨unit, parsed, accepted⟩ := Except.exists_of_toOption accepted
  refine ⟨unit, parsed, accepted, fun node member isBraced => ?_⟩
  obtain ⟨first, last, offsets, -, -, searched⟩ := @CompUnit.closingIndexAt_of_isBraced "t.sy"
    ⟨"t.sy", "int a[1]=\x7b/*//\x7d*/1\x7d;int f()\x7b//*\x7b\n\x7d".toList⟩ unit parsed node member isBraced
  exact ⟨first, last, offsets, searched⟩

end SysYTools
