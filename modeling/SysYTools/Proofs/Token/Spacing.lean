import SysYTools.Proofs.Token.Pieces

/-!
The plain layout of a list of tokens: their values with a single space between any two. A space joins no
token, so a text that is read without problems and the plain layout of its tokens have the same words.
-/

namespace SysYTools

open List

variable {text : Text} {file : String}

/-- The values of tokens with single spaces between them. -/
def Token.spaced (tokens : List Token) : Text := [' '].intercalate (tokens.map (·.value.toList))

namespace Lexis

/-- A text in which nothing stands but words. -/
def Solid (text : Text) : Prop := ∀ piece ∈ pieces text, ∃ kind, piece.1 = .token kind

theorem Solid.clean (solid : Solid text) : Clean text := fun piece member => .inr (solid piece member)

theorem pieces_value {value : Text} {kind : TokenKind}
    (member : (Lexeme.token kind, value) ∈ pieces text) : pieces value = [(.token kind, value)] := by
  obtain ⟨_, right, split⟩ := mem_iff_append.mp member
  have behind := pieces_written_of_append split
  have alone := @pieces_written_of_append_left _ [(.token kind, value)] right behind (by simp [Sound])
  simpa using alone

theorem Solid.pieces_append_blank (solid : Solid text) (rest : Text) :
    pieces (text ++ ' ' :: rest) = pieces text ++ (.gap, [' ']) :: pieces rest := by
  rw [pieces_append solid.clean (.of_isDelimiter rfl), pieces_cons_blank rfl]
  intro last ends
  obtain ⟨lexeme, _⟩ := last
  have member := mem_of_mem_getLast? ends
  obtain ⟨kind, rfl⟩ : ∃ kind, lexeme = .token kind := solid _ member
  exact .of_isDelimiter rfl (not_comment_of_mem_pieces member)

theorem wordsOf_intercalate (texts : List Text) (solid : ∀ text ∈ texts, Solid text) :
    Clean ([' '].intercalate texts) ∧
      wordsOf (pieces ([' '].intercalate texts)) = texts.flatMap fun text => wordsOf (pieces text) := by
  induction texts with
  | nil => simp [Clean, wordsOf]
  | cons first rest ih =>
    obtain ⟨own, others⟩ := forall_mem_cons.mp solid
    obtain ⟨clean, words⟩ := ih others
    cases rest with
    | nil => exact ⟨by simpa using own.clean, by simp⟩
    | cons second rest =>
      have shape : [' '].intercalate (first :: second :: rest) =
          first ++ ' ' :: [' '].intercalate (second :: rest) := by
        simp [intercalate_cons_cons]
      rw [shape, own.pieces_append_blank]
      constructor
      · intro piece member
        rw [own.pieces_append_blank] at member
        rcases mem_append.mp member with member | member
        · exact own.clean piece member
        · rcases mem_cons.mp member with rfl | member
          · exact .inl rfl
          · exact clean piece member
      · rw [wordsOf_append, flatMap_cons, ← words]
        rfl

theorem mem_of_mem_wordsAt {before : Text} {list : List (Lexeme × Text)} {word : Token}
    (member : word ∈ wordsAt file before list) : (Lexeme.token word.kind, word.value.toList) ∈ list := by
  obtain ⟨_, _, split⟩ := mem_iff_append.mp member
  obtain ⟨left, value, _, rfl, -, placed, -⟩ := wordsAt_split split
  have written : word.value.toList = value := by
    have word := @wordOf_tokenAfter file (before ++ written left) word.kind value
    rw [← placed] at word
    exact (Prod.mk.inj word).2
  rw [written]
  simp

/-- The plain layout of the tokens of a text has the words of the text, with the end of the input among
the tokens or without it. -/
theorem scan_spaced {tokens : List Token} (scanned : Token.scan file text = .ok tokens) {list : List Token}
    (either : list = tokens ∨ list = tokens.dropLast) (file' : String) :
    ∃ tokens', Token.scan file' (Token.spaced list) = .ok tokens' ∧ tokens'.map wordOf = tokens.map wordOf := by
  obtain ⟨-, rfl⟩ := scan_eq_ok_iff.mp scanned
  generalize shape : wordsAt file [] (pieces text) = words at either ⊢
  have alone : ∀ word ∈ words, pieces word.value.toList = [(.token word.kind, word.value.toList)] := by
    intro word member
    rw [← shape] at member
    exact pieces_value (mem_of_mem_wordsAt member)
  -- what follows the words in the list writes nothing
  obtain ⟨tail, rfl, empty⟩ : ∃ tail, list = words ++ tail ∧ ∀ stop ∈ tail, pieces stop.value.toList = [] := by
    rcases either with rfl | rfl
    · exact ⟨_, rfl, by simp [tokenAfter]⟩
    · exact ⟨[], by simp, by simp⟩
  have solid : ∀ value ∈ (words ++ tail).map (·.value.toList), Solid value := by
    intro value member
    obtain ⟨token, isToken, rfl⟩ := mem_map.mp member
    intro piece isPiece
    rcases mem_append.mp isToken with isToken | isToken
    · rw [alone token isToken] at isPiece
      exact ⟨token.kind, by rw [mem_singleton.mp isPiece]⟩
    · rw [empty token isToken] at isPiece
      cases isPiece
  obtain ⟨clean, found⟩ := wordsOf_intercalate _ solid
  have kept : ((words ++ tail).map (·.value.toList)).flatMap (fun value => wordsOf (pieces value)) =
      words.map wordOf := by
    have none : tail.flatMap (fun stop => wordsOf (pieces stop.value.toList)) = [] := by
      rw [flatMap_eq_nil_iff]
      intro stop member
      rw [empty stop member]
      rfl
    rw [flatMap_map, flatMap_append, none, append_nil, map_eq_flatMap]
    refine flatMap_congr fun word member => ?_
    rw [alone word member]
    rfl
  refine ⟨_, scan_eq_ok_iff.mpr ⟨clean, rfl⟩, ?_⟩
  rw [map_append, map_append, map_wordOf_wordsAt, Token.spaced, found, kept]
  simp

end Lexis

end SysYTools
