import SysYTools.Proofs.Document
import SysYTools.Proofs.Span
import SysYTools.Proofs.Token.LongestMatch
import SysYTools.Token.Scan

/-!
The cut of a text into gaps and tokens, and the places of the tokens. A scan without problems cuts the
whole text, takes the longest token wherever no gap starts, and gives every token a span at which the
document holds just its value. The end of the text is a token of its own, which stands for no text.
-/

namespace SysYTools

open List

variable {before text : Text} {file : String}
variable {test : Char → Bool} {kind : TokenKind} {range : Range}

/-! ## Places -/

namespace Place

theorem after_append (place : Place) (before more : Text) :
    place.after (before ++ more) = (place.after before).after more :=
  foldl_append

theorem start_after (before : Text) :
    start.after before = { line := before.count '\n' + 1, column := before.lastLine.length + 1 } := by
  induction before using List.reverseRecOn with
  | nil => rfl
  | append_singleton before c ih =>
    rw [after_append, ih]
    simp only [after, foldl_cons, foldl_nil, next]
    split
    next feed => simp [feed, Text.lastLine_append_feed]
    next other =>
      have count : (before ++ [c]).count '\n' = before.count '\n' := by simp [other]
      rw [count, Text.lastLine_append_of_ne before other, length_append, length_singleton]

theorem start_after_append {more : Text} (none : '\n' ∉ more) :
    start.after (before ++ more) =
      { line := before.count '\n' + 1, column := before.lastLine.length + more.length + 1 } := by
  rw [start_after, Text.lastLine_append_of_no_feed before none, count_append,
    count_eq_zero.mpr none, length_append, Nat.add_zero]

theorem after_le {after : Text} (ahead : before <+: after) :
    toLex (((start.after before).line : ℤ), ((start.after before).column : ℤ)) ≤
      toLex (((start.after after).line : ℤ), ((start.after after).column : ℤ)) := by
  obtain ⟨more, rfl⟩ := ahead
  rw [Prod.Lex.toLex_le_toLex]
  by_cases feed : '\n' ∈ more
  · have positive := count_pos_iff.mpr feed
    rw [start_after, start_after, count_append]
    exact .inl (by push_cast; omega)
  · rw [start_after, start_after_append feed]
    exact .inr ⟨rfl, by push_cast; omega⟩

end Place

namespace Lexis

/-! ## Cuts -/

/-- A text falls into gaps and tokens. A token stands only where no comment starts, and it is the longest
one that stands there. -/
inductive Cut : Text → List (TokenKind × Text) → Prop where
  | done : Cut [] []
  | gap {gap rest : Text} {tokens : List (TokenKind × Text)} :
      IsGap gap rest → Cut rest tokens → Cut (gap ++ rest) tokens
  | token {kind : TokenKind} {value rest : Text} {tokens : List (TokenKind × Text)} :
      ¬ StartsComment (value ++ rest) → Longest kind value (value ++ rest) → Cut rest tokens →
      Cut (value ++ rest) ((kind, value) :: tokens)

/-- A token of a file with its value, right after a text. -/
def tokenAfter (file : String) (before : Text) (kind : TokenKind) (value : Text) : Token :=
  { kind, value := String.ofList value
    span := Place.spanTo file (Place.start.after before) (Place.start.after (before ++ value)) }

/-- The tokens of a text that stands right after another text, up to the end of the file. -/
inductive Placed (file : String) : Text → Text → List Token → Prop where
  | done {before : Text} : Placed file before [] [tokenAfter file before .endOfInput []]
  | gap {before gap rest : Text} {tokens : List Token} :
      IsGap gap rest → Placed file (before ++ gap) rest tokens → Placed file before (gap ++ rest) tokens
  | token {before value rest : Text} {kind : TokenKind} {tokens : List Token} :
      ¬ StartsComment (value ++ rest) → Longest kind value (value ++ rest) →
      Placed file (before ++ value) rest tokens →
      Placed file before (value ++ rest) (tokenAfter file before kind value :: tokens)

theorem placed_of_scan {file : String} {before text : Text}
    (clean : (Scan.ofTextFrom file (Place.start.after before) text).reports = []) :
    Placed file before text (Scan.ofTextFrom file (Place.start.after before) text).tokens := by
  induction size_eq : text.length using Nat.strong_induction_on generalizing before text with
  | _ size ih =>
  cases text with
  | nil =>
    rw [Scan.ofTextFrom]
    have done := @Placed.done file before
    simpa [tokenAfter] using done
  | cons c rest =>
    obtain ⟨⟨lexeme, length⟩, found⟩ : ∃ lexed, Lexeme.read c rest = lexed := ⟨_, rfl⟩
    have split : c :: rest = (c :: rest.take length) ++ rest.drop length := by simp
    have next : (Place.start.after before).after (c :: rest.take length) =
        Place.start.after (before ++ (c :: rest.take length)) := (Place.after_append ..).symm
    rw [Scan.ofTextFrom] at clean ⊢
    simp only [found, next] at clean ⊢
    have tail : (Scan.ofTextFrom file (Place.start.after (before ++ (c :: rest.take length)))
          (rest.drop length)).reports = [] →
        Placed file (before ++ (c :: rest.take length)) (rest.drop length)
          (Scan.ofTextFrom file (Place.start.after (before ++ (c :: rest.take length)))
            (rest.drop length)).tokens := by
      intro clean
      refine ih _ ?_ clean rfl
      rw [← size_eq, length_drop, length_cons]
      omega
    rw [split]
    cases lexeme with
    | gap => exact .gap (read_gap found) (tail clean)
    | unclosedComment => simp [Scan.add] at clean
    | token =>
      obtain ⟨longest, outside⟩ := read_token found
      rw [split] at longest outside
      exact .token outside longest (tail clean)
    | badInteger | unknown => simp [Scan.add] at clean

/-! ## Spans of tokens -/

private theorem not_feed_of_all (all : ∀ c ∈ text, test c = true) (other : test '\n' = false) : '\n' ∉ text := by
  intro member
  rw [all _ member] at other
  cases other

private theorem not_feed_cons {c : Char} (head : test c = true)
    (other : test '\n' = false) (tail : '\n' ∉ text) : '\n' ∉ c :: text := by
  simp only [mem_cons, not_or]
  refine ⟨?_, tail⟩
  rintro rfl
  rw [head] at other
  cases other

theorem IsExponent.no_feed (form : IsExponent text) : '\n' ∉ text := by
  cases form with
  | plain marked _ all => exact not_feed_cons marked rfl (not_feed_of_all all rfl)
  | signed marked signed _ all =>
    refine not_feed_cons marked rfl ?_
    rcases signed with rfl | rfl
    · simpa using not_feed_of_all all rfl
    · simpa using not_feed_of_all all rfl

theorem IsToken.no_feed (token : IsToken kind text) : '\n' ∉ text := by
  cases token with
  | word form =>
    cases form with
    | mk named all => exact not_feed_cons named rfl (not_feed_of_all all rfl)
  | integer form =>
    cases form with
    | decimal digit _ all => exact not_feed_cons digit rfl (not_feed_of_all all rfl)
    | octal all => simpa using not_feed_of_all all rfl
    | hexadecimal marked _ all =>
      rcases marked with rfl | rfl
      · simpa using not_feed_of_all all rfl
      · simpa using not_feed_of_all all rfl
  | float form =>
    cases form with
    | point wholeDigits partDigits _ powerForm =>
      have whole := not_feed_of_all wholeDigits rfl
      have part := not_feed_of_all partDigits rfl
      have power : '\n' ∉ _ := powerForm.elim (fun empty => by simp [empty]) IsExponent.no_feed
      simp [whole, part, power]
    | power wholeDigits _ isExponent =>
      have whole := not_feed_of_all wholeDigits rfl
      simp [whole, isExponent.no_feed]
  | symbol member =>
    have all : ∀ entry ∈ symbols, '\n' ∉ entry.1 := by decide
    exact all _ member

theorem ofWord_mem (word : String) : TokenKind.ofWord word ∈ TokenKind.identifier :: TokenKind.keywords.map (·.2) := by
  unfold TokenKind.ofWord
  cases found : TokenKind.keywords.lookup word with
  | none => exact mem_cons_self
  | some kind =>
    obtain ⟨_, _, split, _⟩ := lookup_eq_some_iff.mp found
    exact mem_cons_of_mem _ (mem_map.mpr ⟨(word, kind), by rw [split]; simp, rfl⟩)

theorem IsToken.kind_ne (token : IsToken kind text) : kind ≠ .endOfInput := by
  cases token with
  | word =>
    have all : TokenKind.endOfInput ∉ TokenKind.identifier :: TokenKind.keywords.map (·.2) := by decide
    exact ne_of_mem_of_not_mem (ofWord_mem _) all
  | integer | float => simp
  | symbol member =>
    have all : ∀ entry ∈ symbols, entry.2 ≠ .endOfInput := by decide
    exact all _ member

theorem IsToken.isNumber_of_kind (token : IsToken kind text)
    (isLiteral : kind = .integerLiteral ∨ kind = .floatLiteral) :
    kind = .integerLiteral ∧ IsInteger text ∨ kind = .floatLiteral ∧ IsFloat text := by
  cases token with
  | word =>
    have all : ∀ kind ∈ TokenKind.identifier :: TokenKind.keywords.map (·.2),
        ¬ (kind = .integerLiteral ∨ kind = .floatLiteral) := by decide
    exact absurd isLiteral (all _ (ofWord_mem _))
  | integer form => exact .inl ⟨rfl, form⟩
  | float form => exact .inr ⟨rfl, form⟩
  | symbol member =>
    have all : ∀ entry ∈ symbols, ¬ (entry.2 = .integerLiteral ∨ entry.2 = .floatLiteral) := by decide
    exact absurd isLiteral (all _ member)

theorem IsToken.isInteger (token : IsToken .integerLiteral text) : IsInteger text := by
  simpa using token.isNumber_of_kind (.inl rfl)

theorem IsToken.isFloat (token : IsToken .floatLiteral text) : IsFloat text := by
  simpa using token.isNumber_of_kind (.inr rfl)

/-- A token stands in a text right after a part of it. -/
structure Stands (file : String) (text : Text) (word : Token) (before value : Text) : Prop where
  within : before ++ value <+: text
  isToken : IsToken word.kind value
  shape : word = tokenAfter file before word.kind value

theorem spanTo_tokenAfter {value : Text} (some : value ≠ []) (none : '\n' ∉ value) :
    Place.spanTo file (Place.start.after before) (Place.start.after (before ++ value)) =
      { file
        startLine := before.count '\n' + 1
        startColumn := before.lastLine.length + 1
        endLine := before.count '\n' + 1
        endColumn := before.lastLine.length + value.length } := by
  have positive := length_pos_iff.mpr some
  rw [Place.start_after, Place.start_after_append none]
  simp only [Place.spanTo, Span.mk.injEq, Nat.cast_add, Nat.cast_one, true_and]
  omega

namespace Stands

variable {file : String} {text before value : Text} {word : Token}

section

variable (stands : Stands file text word before value)
include stands

theorem span_eq :
    word.span =
      { file
        startLine := before.count '\n' + 1
        startColumn := before.lastLine.length + 1
        endLine := before.count '\n' + 1
        endColumn := before.lastLine.length + value.length } := by
  rw [stands.shape]
  exact spanTo_tokenAfter stands.isToken.ne_nil stands.isToken.no_feed

theorem value_eq : word.value.toList = value := by
  rw [stands.shape]
  simp [tokenAfter]

theorem ordered : word.span.Ordered := by
  have positive := length_pos_iff.mpr stands.isToken.ne_nil
  rw [stands.span_eq, Span.Ordered, Span.first, Span.last, Prod.Lex.toLex_le_toLex]
  exact .inr ⟨rfl, by dsimp only; omega⟩

theorem before_of_isPrefix {later : Token} {before' value' : Text} (stands' : Stands file text later before' value')
    (ahead : before ++ value <+: before') : word.span.Before later.span := by
  have order := Place.after_le ahead
  rw [Place.start_after_append stands.isToken.no_feed, Place.start_after, Prod.Lex.toLex_le_toLex] at order
  rw [Span.before_iff, stands.span_eq, stands'.span_eq]
  dsimp only at order ⊢
  push_cast at order
  omega

theorem toRange_eq_ok_iff :
    word.span.toRange = .ok range ↔ (range.start = ⟨before.count '\n', before.lastLine.length⟩ ∧
        range.stop = ⟨before.count '\n', before.lastLine.length + value.length⟩) ∧
        (before.count '\n' : Int) ≤ Coordinate.limit ∧
          (before.lastLine.length + value.length : Int) ≤ Coordinate.limit := by
  obtain ⟨⟨_, _⟩, ⟨_, _⟩⟩ := range
  rw [stands.span_eq, Span.toRange, Range.ofInts_eq_ok_iff, Position.ofInts_eq_ok_iff, Position.ofInts_eq_ok_iff]
  simp only [Position.mk.injEq]
  omega

theorem textIn_toRange
    (found : word.span.toRange = .ok range) (uri : String) :
    Document.textIn { uri, text } range = word.value.toList := by
  obtain ⟨⟨startAt, stopAt⟩, -⟩ := stands.toRange_eq_ok_iff.mp found
  have stopOffset := Document.offsetAt_after uri stands.within
  rw [Text.lastLine_append_of_no_feed before stands.isToken.no_feed, count_append,
    count_eq_zero.mpr stands.isToken.no_feed, length_append, length_append,
    Nat.add_zero] at stopOffset
  have startOffset := Document.offsetAt_after uri ((prefix_append _ _).trans stands.within)
  obtain ⟨_, rfl⟩ := stands.within
  rw [Document.textIn, startAt, stopAt, startOffset, stopOffset, stands.value_eq, Text.slice,
    append_assoc, drop_left, Nat.add_sub_cancel_left, take_left]

theorem exists_toRange (short : (text.length : Int) ≤ Coordinate.limit) : ∃ range, word.span.toRange = .ok range := by
  have size := stands.within.length_le
  have lines := count_le_length (a := '\n') (l := before)
  have columns : before.lastLine.length ≤ before.length := by
    simpa [Text.lastLine] using ( takeWhile_prefix (l := before.reverse) (· != '\n')).length_le
  rw [length_append] at size
  exact ⟨⟨_, _⟩, stands.toRange_eq_ok_iff.mpr ⟨⟨rfl, rfl⟩, by omega, by omega⟩⟩

end

end Stands

/-- The tokens of a placed text before the one for its end: they cut the text, each of them stands in it,
and they follow each other. -/
theorem Placed.words {file : String} {before text : Text} {tokens : List Token}
    (placed : Placed file before text tokens) :
    ∃ words, tokens = words ++ [tokenAfter file (before ++ text) .endOfInput []] ∧
      Cut text (words.map fun word => (word.kind, word.value.toList)) ∧
      words.Pairwise (fun left right => left.span.Before right.span) ∧
      ∀ word ∈ words, ∃ left value, before <+: left ∧ Stands file (before ++ text) word left value := by
  induction placed with
  | done => exact ⟨[], by simp, .done, .nil, by simp⟩
  | @gap before gap rest tokens isGap _ ih =>
    obtain ⟨words, rfl, cut, sorted, standing⟩ := ih
    refine ⟨words, by simp, .gap isGap cut, sorted, ?_⟩
    intro word member
    obtain ⟨left, value, ahead, stands⟩ := standing word member
    exact ⟨left, value, (prefix_append _ _).trans ahead, by rwa [← append_assoc]⟩
  | @token before value rest kind tokens outside longest _ ih =>
    obtain ⟨words, rfl, cut, sorted, standing⟩ := ih
    simp only [append_assoc] at standing
    have head : Stands file (before ++ (value ++ rest)) (tokenAfter file before kind value) before value :=
      { within := by rw [← append_assoc]; exact prefix_append _ _
        isToken := longest.token
        shape := rfl }
    refine ⟨tokenAfter file before kind value :: words, by simp, ?_, ?_, ?_⟩
    · rw [map_cons, head.value_eq]
      exact .token outside longest cut
    · refine .cons ?_ sorted
      intro word member
      obtain ⟨left, later, ahead, stands⟩ := standing word member
      exact head.before_of_isPrefix stands ahead
    · intro word member
      rcases mem_cons.mp member with rfl | member
      · exact ⟨before, value, prefix_rfl, head⟩
      · obtain ⟨left, later, ahead, stands⟩ := standing word member
        exact ⟨left, later, (prefix_append _ _).trans ahead, stands⟩

theorem placed_of_scan_eq_ok {tokens : List Token}
    (scanned : Token.scan file text = .ok tokens) : Placed file [] text tokens := by
  simp only [Token.scan] at scanned
  split at scanned
  next clean =>
    obtain rfl := Except.ok.inj scanned
    exact @placed_of_scan file [] text (List.isEmpty_iff.mp clean)
  · cases scanned

end Lexis

open Lexis in
/-- A text without lexical problems is cut into gaps and longest tokens. The spans of the tokens follow
each other, and at each of them the document holds the value of the token. Only a text that is longer
than a position can count has tokens without a range. -/
theorem Token.scan_cut {file : String} {text : Text} {tokens : List Token}
    (scanned : Token.scan file text = .ok tokens) :
    ∃ words stop, tokens = words ++ [stop] ∧ stop.kind = .endOfInput ∧ (∀ word ∈ words, word.kind ≠ .endOfInput) ∧
      Cut text (words.map fun word => (word.kind, word.value.toList)) ∧
      words.Pairwise (fun left right => left.span.Before right.span) ∧ ∀ word ∈ words, word.span.Ordered ∧
        (∀ range, word.span.toRange = .ok range → ∀ uri, Document.textIn { uri, text } range = word.value.toList) ∧
        ((text.length : Int) ≤ Coordinate.limit → ∃ range, word.span.toRange = .ok range) := by
  obtain ⟨words, rfl, cut, sorted, standing⟩ := (placed_of_scan_eq_ok scanned).words
  refine ⟨words, _, rfl, rfl, ?_, cut, sorted, ?_⟩
  · intro word member
    obtain ⟨left, value, -, stands⟩ := standing word member
    exact stands.isToken.kind_ne
  · intro word member
    obtain ⟨_, _, -, stands⟩ := standing word member
    exact ⟨stands.ordered, fun range found => stands.textIn_toRange found, stands.exists_toRange⟩

/-- A comment and a line feed stand between an operator and a number with an exponent. -/
theorem Token.scan_cut_comment :
    ∃ words stop, Token.scan "t.sy" "a/ /*x*/\n.5e1".toList = .ok (words ++ [stop]) ∧
      Lexis.Cut "a/ /*x*/\n.5e1".toList (words.map fun word => (word.kind, word.value.toList)) := by
  have scanned : Token.scan "t.sy" "a/ /*x*/\n.5e1".toList = .ok
      [⟨.identifier, "a", ⟨"t.sy", 1, 1, 1, 1⟩⟩, ⟨.slash, "/", ⟨"t.sy", 1, 2, 1, 2⟩⟩,
        ⟨.floatLiteral, ".5e1", ⟨"t.sy", 2, 1, 2, 4⟩⟩, ⟨.endOfInput, "", ⟨"t.sy", 2, 5, 2, 4⟩⟩] := by
    rw [String.toList_ofList]
    decide +kernel
  obtain ⟨words, stop, shape, -, -, cut, -⟩ := Token.scan_cut scanned
  exact ⟨words, stop, shape ▸ scanned, cut⟩

end SysYTools
