import SysYTools.Diagnostic.Explanation
import SysYTools.Proofs.Literal
import SysYTools.Proofs.Scope.Stopping
import SysYTools.Proofs.Text.Pattern

/-!
The explanations of messages. The standard table is well formed, so it has an answer for every message: the message as
it is, or with one of its explanations below it. An explanation is found only where its key stands in the message, or
the text that its pattern ends with.
-/

namespace SysYTools

open List

variable {message : String}

/-- The explanation as it stands below a message, after a line feed. -/
def Explanation.below (explanation : Explanation) : Text :=
  "\nDetails: ".toList ++ (explanation.details.toList ++ ("\nSuggestion: ".toList ++ explanation.suggestion.toList))

theorem Explanation.below_eq (explanation : Explanation) :
    explanation.below = "\nDetails: ".toList ++ (explanation.details.toList ++
      ("\nSuggestion: ".toList ++ explanation.suggestion.toList)) := rfl

namespace ExplanationTable

/-! ## The standard table -/

/-- A pattern of the table: plain text, then a word or anything, and plain text. -/
structure PatternShape where
  category : Category
  opening : Text
  isWord : Bool
  ending : Text

namespace PatternShape

variable (shape : PatternShape)

def piece : Pattern.Piece := if shape.isWord then ⟨.word, .atLeastOnce⟩ else ⟨.any, .anyNumber⟩

def pattern : Pattern := (Pattern.literal shape.opening ++ [shape.piece]) ++ Pattern.literal shape.ending

/-- The pattern as a key writes it. -/
def written : Text := shape.opening ++ ((if shape.isWord then ['\\', 'w', '+'] else ['.', '*']) ++ shape.ending)

theorem ofText_written {shape : PatternShape} (plain : shape.opening.all Pattern.isPlain = true)
    (plainEnding : shape.ending.all Pattern.isPlain = true) : Pattern.ofText shape.written = .ok shape.pattern := by
  obtain ⟨_, _, isWord, _⟩ := shape
  cases isWord
  · exact Pattern.ofText_any plain plainEnding
  · exact Pattern.ofText_word plain plainEnding

def arrayOverflow : PatternShape :=
  ⟨.array, "array ".toList, false, " has more initializer elements than the array size".toList⟩

def duplicateFunction : PatternShape := ⟨.function, "function name ".toList, false, " is already defined".toList⟩

def missingReturn : PatternShape :=
  ⟨.function, "function with return type ".toList, true, " is missing a return statement".toList⟩

def emptyReturn : PatternShape :=
  ⟨.function, "function with return type ".toList, true, " must not return empty".toList⟩

end PatternShape

def patternShapes : List PatternShape := [.arrayOverflow, .duplicateFunction, .missingReturn, .emptyReturn]

theorem ofText_of_mem_patternShapes : ∀ shape ∈ patternShapes, Pattern.ofText shape.written = .ok shape.pattern := by
  intro shape member
  have plain : ∀ shape ∈ patternShapes, shape.opening.all Pattern.isPlain && shape.ending.all Pattern.isPlain := by
    simp only [patternShapes, PatternShape.arrayOverflow, PatternShape.duplicateFunction,
      PatternShape.missingReturn, PatternShape.emptyReturn]
    repeat rw [String.toList_ofList]
    decide +kernel
  obtain ⟨opening, ending⟩ := Bool.and_eq_true_iff.mp (plain shape member)
  exact PatternShape.ofText_written opening ending

def between? : Text → Option Text
  | '"' :: rest =>
    match rest.reverse with
    | '"' :: reversed => some reversed.reverse
    | _ => none
  | _ => none

theorem standard_patterns :
    standard.entries.filterMap (fun entry => (patternText? entry.1).map (entry.2.category, ·)) =
      patternShapes.map fun shape => (shape.category, shape.written) := by
  have read : (standard.entries.map fun entry => (entry.2.category, entry.1.toList)).filterMap
      (fun key => (between? key.2).map (key.1, ·)) =
        patternShapes.map fun shape => (shape.category, shape.written) := by
    simp only [standard, map_cons, map_nil, patternShapes, PatternShape.written, PatternShape.arrayOverflow,
      PatternShape.duplicateFunction, PatternShape.missingReturn, PatternShape.emptyReturn]
    repeat rw [String.toList_ofList]
    decide +kernel
  rwa [filterMap_map] at read

theorem exists_patternShape {entry : String × Explanation} (member : entry ∈ standard.entries) {written : Text}
    (quoted : patternText? entry.1 = some written) :
    ∃ shape ∈ patternShapes, shape.category = entry.2.category ∧ Pattern.ofText written = .ok shape.pattern := by
  have listed : (entry.2.category, written) ∈ patternShapes.map fun shape => (shape.category, shape.written) := by
    rw [← standard_patterns]
    exact mem_filterMap.mpr ⟨entry, member, by rw [quoted]; rfl⟩
  obtain ⟨shape, isShape, same⟩ := mem_map.mp listed
  obtain ⟨category, rfl⟩ := Prod.mk.inj same
  exact ⟨shape, isShape, category, ofText_of_mem_patternShapes shape isShape⟩

/-- The texts of which one stands in each message that has an explanation: the keys, and what the patterns end
with. Each has the category of its explanation. -/
def keys : List (Category × Text) :=
  standard.entries.map (fun entry => (entry.2.category, entry.1.toList)) ++
    patternShapes.map fun shape => (shape.category, shape.ending)

theorem keys_eq : keys =
    standard.entries.map (fun entry => (entry.2.category, entry.1.toList)) ++
      [(.array, " has more initializer elements than the array size".toList),
        (.function, " is already defined".toList), (.function, " is missing a return statement".toList),
        (.function, " must not return empty".toList)] := rfl

/-! ## What the table finds -/

/-- A key that writes no pattern which occurs in a text. -/
def PatternAbsent (text : Text) (key : String) : Prop :=
  ∀ written, patternText? key = some written → ∀ pattern, Pattern.ofText written = .ok pattern →
    pattern.occursIn text = false

theorem findPattern?_cases {text : Text} {entries : List (String × Explanation)}
    (listed : ∀ entry ∈ entries, entry ∈ standard.entries) :
    (findPattern? text entries = .ok none ∧ ∀ entry ∈ entries, PatternAbsent text entry.1) ∨
      ∃ entry ∈ entries, findPattern? text entries = .ok (some entry.2) ∧
        ∃ shape ∈ patternShapes, shape.category = entry.2.category ∧ text.hasPart shape.ending = true := by
  induction entries with
  | nil => exact .inl ⟨rfl, by simp⟩
  | cons entry entries ih =>
    obtain ⟨key, explanation⟩ := entry
    obtain ⟨listedHead, listedTail⟩ := forall_mem_cons.mp listed
    have step : (PatternAbsent text key ∧
        findPattern? text ((key, explanation) :: entries) = findPattern? text entries) ∨
        findPattern? text ((key, explanation) :: entries) = .ok (some explanation) ∧
          ∃ shape ∈ patternShapes, shape.category = explanation.category ∧ text.hasPart shape.ending = true := by
      cases quoted : patternText? key with
      | none => exact .inl ⟨by simp [PatternAbsent, quoted], by simp [findPattern?, quoted]⟩
      | some =>
        obtain ⟨shape, isShape, category, pattern⟩ := exists_patternShape listedHead quoted
        cases occurs : shape.pattern.occursIn text with
        | true =>
          refine .inr ⟨?_, shape, isShape, category, Pattern.hasPart_of_occursIn occurs⟩
          simp [findPattern?, quoted, pattern, occurs, bind, Except.bind, pure, Except.pure]
        | false =>
          exact .inl ⟨by simpa [PatternAbsent, quoted, pattern] using occurs,
            by simp [findPattern?, quoted, pattern, occurs, bind, Except.bind]⟩
    rcases step with ⟨absent, same⟩ | found
    · rw [same]
      exact (ih listedTail).imp (fun none => ⟨none.1, forall_mem_cons.mpr ⟨absent, none.2⟩⟩)
        fun ⟨entry, member, found⟩ => ⟨entry, mem_cons_of_mem _ member, found⟩
    · exact .inr ⟨_, mem_cons_self, found⟩

/-- An explanation is found where a key of its category stands. Where none is found, no key stands and no pattern
occurs. -/
theorem find_standard_cases (message : String) :
    (standard.find message = .ok none ∧ ∀ entry ∈ standard.entries,
      Text.hasPart message.toList entry.1.toList = false ∧ PatternAbsent message.toList entry.1) ∨
      ∃ entry ∈ standard.entries, standard.find message = .ok (some entry.2) ∧
        ∃ part, (entry.2.category, part) ∈ keys ∧ Text.hasPart message.toList part = true := by
  rw [find, findPlain?]
  cases plain : standard.entries.find? fun entry => Text.hasPart message.toList entry.1.toList with
  | some entry =>
    have holds := find?_some plain
    have member := mem_of_find?_eq_some plain
    exact .inr ⟨entry, member, rfl, _, mem_append_left _ (mem_map_of_mem member), holds⟩
  | none =>
    rcases @findPattern?_cases message.toList standard.entries (fun _ => id) with
      ⟨none, absent⟩ | ⟨entry, member, found, shape, isShape, category, ending⟩
    · refine .inl ⟨none, fun entry member => ⟨?_, absent entry member⟩⟩
      simpa using List.find?_eq_none.mp plain entry member
    · refine .inr ⟨entry, member, found, shape.ending, ?_, ending⟩
      rw [← category]
      exact mem_append_right _ (mem_map_of_mem isShape)

theorem enrich_of_find {table : ExplanationTable} (speaks : message ≠ "")
    {result : Option Explanation} (found : table.find message = .ok result) :
    table.enrich message = .ok (result.elim message fun explanation =>
      s!"{message}\n\nDetails: {explanation.details}\nSuggestion: {explanation.suggestion}") := by
  have said : message.isEmpty = false := by simpa using speaks
  rw [enrich, said, if_neg Bool.false_ne_true, found]
  cases result <;> rfl

theorem toList_enriched (message : String) (explanation : Explanation) :
    s!"{message}\n\nDetails: {explanation.details}\nSuggestion: {explanation.suggestion}".toList =
      message.toList ++ '\n' :: explanation.below := by
  change (message ++ "\n\nDetails: " ++ explanation.details ++ "\nSuggestion: " ++ explanation.suggestion).toList = _
  simp only [String.toList_append, Explanation.below_eq, append_assoc]
  rw [String.toList_ofList, String.toList_ofList, String.toList_ofList]
  rfl

theorem enrich_standard_cases (speaks : message ≠ "") :
    standard.enrich message = .ok message ∨
      ∃ entry ∈ standard.entries, ∃ enriched, standard.enrich message = .ok enriched ∧
        enriched.toList = message.toList ++ '\n' :: entry.2.below := by
  rcases find_standard_cases message with ⟨none, -⟩ | ⟨entry, member, found, -⟩
  · exact .inl (enrich_of_find speaks none)
  · exact .inr ⟨entry, member, _, enrich_of_find speaks found, toList_enriched message entry.2⟩

theorem enrich_standard (message : String) : standard.enrich message = .ok (standard.enrichSafely message) := by
  have formed : ∃ enriched, standard.enrich message = .ok enriched := by
    by_cases said : message = ""
    · exact ⟨unknownError, by simp [enrich, said]⟩
    · rcases enrich_standard_cases said with same | ⟨_, _, enriched, found, _⟩
      · exact ⟨message, same⟩
      · exact ⟨enriched, found⟩
  obtain ⟨_, found⟩ := formed
  rw [enrichSafely, found]

theorem enrichSafely_of_fills {template : Template} (speaks : message ≠ "") (fills : template.Fills message.toList)
    (unheld : ∀ key ∈ keys, template.mayHold key.2 = false) : standard.enrichSafely message = message := by
  have unexplained : standard.find message = .ok none := by
    rcases find_standard_cases message with ⟨none, -⟩ | ⟨_, -, -, _, isKey, stands⟩
    · exact none
    · exact absurd (fills.mayHold stands) (by simp [unheld _ isKey])
  rw [enrichSafely, enrich_of_find speaks unexplained, Option.elim_none]

end ExplanationTable

/-! ## Analyses that stopped -/

open Template in
/-- The message of a fault with gaps for numbers. -/
def Fault.template : Fault → Template
  | .tooManyDigits _ =>
    ofString "Exceeds the limit (" ++ gap ++ ofString " digits) for integer string conversion: " ++
      (ofString "value has " ++ gap ++ ofString " digits; use sys.set_int_max_str_digits() to increase the limit")
  | fault => ofString fault.message

namespace Fault.StopsLinking

variable {fault : Fault}

theorem fills (stops : fault.StopsLinking) : fault.template.Fills fault.message.toList := by
  cases stops with
  | notInteger => exact .ofString _
  | tooManyDigits digits =>
    exact .join (.join (.join (.ofString _) (.gap (Literal.space_notMem_toString _))) (.ofString _))
      (.join (.join (.ofString _) (.gap (Literal.space_notMem_toString digits))) (.ofString _))

open Template in
private theorem unexplained (stops : fault.StopsLinking) :
    ∀ key ∈ ExplanationTable.keys,
      (ofString "[internal] analysis error: " ++ fault.template).mayHold key.2 = false := by
  simp only [ExplanationTable.keys_eq, ExplanationTable.standard, map_cons, map_nil]
  cases stops with
  | notInteger | tooManyDigits =>
    dsimp only [template, message, ofString]
    repeat rw [String.toList_ofList]
    decide +kernel

theorem enrichSafely_message (stops : fault.StopsLinking) :
    ExplanationTable.standard.enrichSafely s!"[internal] analysis error: {fault.message}" =
      s!"[internal] analysis error: {fault.message}" :=
  ExplanationTable.enrichSafely_of_fills (by simp [toString]) (.join (.ofString _) stops.fills) stops.unexplained

end Fault.StopsLinking

end SysYTools
