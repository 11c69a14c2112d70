import SysYTools.Proofs.Literal
import SysYTools.Proofs.Text.Template
import SysYTools.Proofs.Token.Signs
import SysYTools.Text.Occurrence

/-!
Forms in raw text. A form that starts with a fixed key is found where the key stands first, and names, words
and numbers are read up to the first character that cannot belong to them. The first occurrence of a form is where no
other one is read before it.
-/

namespace SysYTools

open List Lexis Lexeme

variable {rest key text : Text}

namespace Lexis

theorem isDecimalDigit_iff_of_low {c : Char} (low : c.toNat < 128) : isDecimalDigit c = true ↔ c.isDigit = true := by
  have zeros : ∀ first ∈ decimalZeros, first = 48 ∨ 128 ≤ first := by decide
  rw [isDigit_iff]
  constructor
  · intro digit
    rw [isDecimalDigit, decimalDigit?, Option.isSome_map, find?_isSome] at digit
    obtain ⟨first, member, range⟩ := digit
    simp only [Bool.and_eq_true, decide_eq_true_eq] at range
    rcases zeros first member with rfl | high
    · omega
    · omega
  · intro range
    rw [isDecimalDigit, decimalDigit?, Option.isSome_map, find?_isSome]
    exact ⟨48, by decide, by simpa using ⟨range.1, by omega⟩⟩

theorem AllDigits.isDecimalDigit {digits : Text} (all : AllDigits digits) : ∀ c ∈ digits, isDecimalDigit c = true := by
  intro c member
  have digit := all c member
  have low : c.toNat < 128 := by
    rw [isDigit_iff] at digit
    omega
  exact (isDecimalDigit_iff_of_low low).mpr digit

end Lexis

namespace Text

/-! ## Runs of characters -/

theorem span_append {test : Char → Bool} {front rest : Text} (all : ∀ c ∈ front, test c = true)
    (stop : ∀ c ∈ rest.head?, test c = false) :
    (front ++ rest).takeWhile test = front ∧ (front ++ rest).dropWhile test = rest := by
  rw [takeWhile_append_of_pos all, dropWhile_append_of_pos all]
  cases rest with
  | nil => simp
  | cons c => simp [stop c rfl]

theorem readName_append {name : Text} (form : IsWord name) (stop : ∀ c ∈ rest.head?, isWordChar c = false) :
    readName (name ++ rest) = some (name, rest) := by
  cases form with
  | mk start all =>
    obtain ⟨taken, left⟩ := span_append (fun c member => isWordChar_of_isNameChar (all c member)) stop
    simp [readName, start, taken, left]

theorem readWord_append {word : Text} (nonempty : word ≠ []) (all : ∀ c ∈ word, isNameChar c = true)
    (stop : ∀ c ∈ rest.head?, isWordChar c = false) : readWord (word ++ rest) = some (word, rest) := by
  obtain ⟨taken, left⟩ := span_append (fun c member => isWordChar_of_isNameChar (all c member)) stop
  simp [readWord, taken, left, nonempty]

theorem readDigits_append {digits : Text} (nonempty : digits ≠ []) (all : AllDigits digits)
    (stop : ∀ c ∈ rest.head?, isDecimalDigit c = false) : readDigits (digits ++ rest) = some (digits, rest) := by
  obtain ⟨taken, left⟩ := span_append all.isDecimalDigit stop
  simp [readDigits, taken, left, nonempty]

/-! ## Keys -/

theorem readExactly_append (key rest : Text) : readExactly key (key ++ rest) = some rest := by
  have starts : key.isPrefixOf (key ++ rest) = true := isPrefixOf_iff_prefix.mpr (prefix_append key rest)
  rw [readExactly, if_pos starts, drop_left]

theorem readExactly_eq_none (absent : ¬ key <+: text) : readExactly key text = none := by
  rw [readExactly, if_neg]
  rwa [ isPrefixOf_iff_prefix]

theorem readExactly_eq_some (found : readExactly key text = some rest) : text = key ++ rest := by
  unfold readExactly at found
  split at found
  next starts =>
    obtain ⟨after, rfl⟩ := isPrefixOf_iff_prefix.mp starts
    obtain rfl : after = rest := by simpa using found
    rfl
  · cases found

/-- A form that starts with a key is found where the key stands first. -/
theorem search?_keyed {α : Type} {front after : Text} {next : Reader α} {value : α}
    (fresh : hasPart (front ++ key.dropLast) key = false) (found : (next after).map Prod.fst = some value) :
    search? (front ++ (key ++ after)) (fun text => readExactly key text >>= next) = some value := by
  induction front with
  | nil =>
    obtain ⟨⟨_, _⟩, read, rfl⟩ := Option.map_eq_some_iff.mp found
    rw [nil_append]
    unfold search?
    simp [readExactly_append, read]
  | cons c front ih =>
    rw [cons_append, hasPart, Bool.or_eq_false_iff] at fresh
    -- a key that started here would end before the key behind the front does
    have absent : ¬ key <+: c :: front ++ (key ++ after) := by
      intro starts
      have within : c :: front ++ key.dropLast <+: c :: front ++ (key ++ after) := by
        rw [prefix_append_right_inj]
        exact ( dropLast_prefix key).trans (prefix_append key after)
      have earlier := prefix_of_prefix_length_le starts within (by simp; omega)
      rw [← isPrefixOf_iff_prefix, cons_append, fresh.1] at earlier
      cases earlier
    have missed : readExactly key (c :: (front ++ (key ++ after))) = none := readExactly_eq_none absent
    rw [cons_append]
    unfold search?
    simpa [missed] using ih fresh.2

/-! ## First occurrences -/

variable {α : Type} {read : Reader α} {before : Option Char} {index resume : Nat} {text front back : Text}

/-- A form is read at a word boundary of a text, behind its front. -/
structure ReadsAt (read : Reader α) (before : Option Char) (text front back : Text) (result : α × Text) : Prop where
  split : text = front ++ back
  boundary : isWordBoundary (front.getLast?.or before) back.head? = true
  found : read back = some result

theorem getLast?_cons_or (c : Char) (front : Text) (before : Option Char) :
    (c :: front).getLast?.or before = front.getLast?.or (some c) := by
  rw [getLast?_cons]
  cases front.getLast? <;> rfl

theorem ReadsAt.cons {c : Char} {result : α × Text} (reads : ReadsAt read (some c) text front back result) :
    ReadsAt read before (c :: text) (c :: front) back result := by
  refine ⟨congrArg (c :: ·) reads.split, ?_, reads.found⟩
  rw [getLast?_cons_or]
  exact reads.boundary

theorem occurrencesFrom_eq_nil (missing : ∀ front back result, ¬ ReadsAt read before text front back result) :
    occurrencesFrom read before index resume text = [] := by
  induction text generalizing before index with
  | nil => rfl
  | cons c rest ih =>
    have passed : (if resume ≤ index && isWordBoundary before (some c) then read (c :: rest) else none) = none := by
      split
      next here =>
        cases found : read (c :: rest) with
        | none => rfl
        | some result =>
          refine absurd ⟨rfl, ?_, found⟩ (missing [] (c :: rest) result)
          simpa using (Bool.and_eq_true_iff.mp here).2
      · rfl
    rw [occurrencesFrom]
    simp only [passed]
    exact ih fun front back result reads => missing (c :: front) back result reads.cons

/-- The first occurrence stands where no other one is read before it. -/
theorem head?_occurrencesFrom {value : α} {after : Text} (reads : ReadsAt read before text front back (value, after))
    (nonempty : back ≠ [])
    (first : ∀ front' back' result, ReadsAt read before text front' back' result → front.length ≤ front'.length)
    (start : resume ≤ index) :
    (occurrencesFrom read before index resume text).head? =
      some ⟨index + front.length, index + front.length + (back.length - after.length), value⟩ := by
  induction front generalizing before index text with
  | nil =>
    obtain ⟨c, rest, rfl⟩ := exists_cons_of_ne_nil nonempty
    obtain rfl : text = c :: rest := reads.split
    have boundary : isWordBoundary before (some c) = true := by simpa using reads.boundary
    rw [occurrencesFrom]
    simp [boundary, start, reads.found]
  | cons c front ih =>
    obtain ⟨split, boundary, found⟩ := reads
    obtain ⟨rest, rfl, rfl⟩ : ∃ rest, text = c :: rest ∧ rest = front ++ back := ⟨_, split, rfl⟩
    have passed : (if resume ≤ index && isWordBoundary before (some c) then read (c :: (front ++ back)) else none) =
        none := by
      split
      next here =>
        cases early : read (c :: (front ++ back)) with
        | none => rfl
        | some result =>
          have short := first [] (c :: (front ++ back)) result
            ⟨rfl, by simpa using (Bool.and_eq_true_iff.mp here).2, early⟩
          simp at short
      · rfl
    rw [getLast?_cons_or] at boundary
    have next := @ih (some c) (index + 1) (front ++ back) ⟨rfl, boundary, found⟩
      (fun front' back' result reads => by simpa using first _ _ _ reads.cons) (by omega)
    rw [occurrencesFrom]
    simp only [passed]
    rw [next]
    simp only [length_cons, Option.some.injEq, Occurrence.mk.injEq, and_true]
    omega

end Text

end SysYTools
