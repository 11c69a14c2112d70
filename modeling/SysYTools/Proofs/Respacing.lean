import SysYTools.Proofs.Rule.Skeleton
import SysYTools.Proofs.Token.Spacing
import SysYTools.Proofs.Tree.Pairing

/-!
The analysis of a text does not hang on its layout. Blanks, comments and the ends of lines decide where the words of a
text stand, and nothing else that the analysis finds. The places of the words are replaced by their numbers. Two texts
with the same words then have programs of one skeleton, which is linked and checked in place of both.
-/

namespace SysYTools

open List Lexis SysYTools.Parser Report

variable {file file' : String} {left right : Span → Span} {text text' : Text} {tokens tokens' : List Token}
  {unit unit' : CompUnit}

/-! ## What is left without places -/

def Declaration.shape : Declaration → Declaration
  | .variable decl var => .variable (decl.shape id) var.shape
  | .parameter param => .parameter param.shape
  | .function func => .function (func.shape id)

/-- A program without its places: its items, and the uses of names with their meanings. -/
def Program.shape (program : Program) : List Item × List (String × Option Declaration) :=
  (program.unit.shape id,
    program.linkage.bindings.map fun binding => (binding.reference.name, binding.target.map (·.shape)))

def Diagnostic.content (diagnostic : Diagnostic) : Diagnostic :=
  { diagnostic with labels := [] }

/-- What an analysis says of a text, whatever the layout. -/
def Analysis.content (analysis : Analysis) :
    Option (List Item × List (String × Option Declaration)) × List Diagnostic :=
  (analysis.program.map (·.shape), analysis.diagnostics.map (·.content))

theorem Declaration.shape_relocate {move : Relocation} (declaration : Declaration) :
    (declaration.relocate move).shape = declaration.shape :=
  match declaration with
  | .variable decl var => by rw [relocate, shape, decl.shape_relocate, var.shape_relocate, shape]
  | .parameter param => by rw [relocate, shape, param.shape_relocate, shape]
  | .function func => by rw [relocate, shape, func.shape_relocate, shape]

theorem Program.shape_skeleton {pin : Span → Span} {linkage mirror : Linkage}
    (mirrors : linkage.Mirrors (.pinned pin) mirror) (unit : CompUnit) :
    Program.shape ⟨unit, linkage⟩ = Program.shape ⟨unit.relocate (.pinned pin), mirror⟩ := by
  simp only [Program.shape, unit.shape_relocate, mirrors.bindings, map_map, Prod.mk.injEq, true_and]
  refine map_congr_left fun binding _ => ?_
  simp [Binding.relocate, Reference.relocate, Function.comp_def, Declaration.shape_relocate]

theorem CheckSettings.contents_eq (settings : CheckSettings) (table : ExplanationTable) {form : Report → Diagnostic}
    (unplaced : ∀ problem span, (form ⟨problem, span⟩).content = (form ⟨problem, .nowhere⟩).content)
    {reports reports' : List Report} (same : problems reports = problems reports') :
    (reports.map fun report => settings.present table (form report)).map (·.content) =
      (reports'.map fun report => settings.present table (form report)).map (·.content) := by
  have commutes : ∀ diagnostic : Diagnostic,
      (settings.present table diagnostic).content = settings.present table diagnostic.content := by
    intro diagnostic
    unfold CheckSettings.present
    split <;> rfl
  have known : ∀ list : List Report,
      (list.map fun report => settings.present table (form report)).map (·.content) =
        (problems list).map fun problem => settings.present table (form ⟨problem, .nowhere⟩).content := by
    intro list
    rw [problems, map_map, map_map]
    refine map_congr_left fun report _ => ?_
    exact (commutes _).trans (congrArg _ (unplaced report.problem report.span))
  rw [known, known, same]

/-! ## Numbers for places -/

/-- The number of a word in place of its span. All other spans are kept apart from the numbers. -/
def Token.number (words : List Token) (span : Span) : Span :=
  match words.findIdx? (·.span == span) with
  | some index => ⟨"", index, 0, 0, 0⟩
  | none => { span with file := span.file.push ' ' }

theorem Token.number_injective (words : List Token) : Function.Injective (Token.number words) := by
  have named : ∀ file : String, file.push ' ' ≠ "" := by
    intro file same
    have chars := congrArg String.toList same
    simp at chars
  intro span other same
  simp only [number] at same
  cases found : words.findIdx? (·.span == span) with
  | some =>
    cases found' : words.findIdx? (·.span == other) with
    | some =>
      simp only [found, found', Span.mk.injEq, Nat.cast_inj, true_and, and_true] at same
      subst same
      obtain ⟨_, isSpan, -⟩ := findIdx?_eq_some_iff_getElem.mp found
      obtain ⟨_, isOther, -⟩ := findIdx?_eq_some_iff_getElem.mp found'
      exact (eq_of_beq isSpan).symm.trans (eq_of_beq isOther)
    | none =>
      simp only [found, found', Span.mk.injEq] at same
      exact absurd same.1.symm (named other.file)
  | none =>
    cases found' : words.findIdx? (·.span == other) with
    | some =>
      simp only [found, found', Span.mk.injEq] at same
      exact absurd same.1 (named span.file)
    | none =>
      simp only [found, found', Span.mk.injEq] at same
      obtain ⟨files, _⟩ := same
      have file : span.file = other.file := by
        have chars := congrArg String.toList files
        exact String.toList_injective (by simpa using chars)
      obtain ⟨_, _, _, _, _⟩ := span
      simp_all

theorem Token.number_getElem {words : List Token}
    (distinct : words.Pairwise fun left right => left.span ≠ right.span) {index : Nat}
    (within : index < words.length) : Token.number words words[index].span = ⟨"", index, 0, 0, 0⟩ := by
  have found : words.findIdx? (·.span == words[index].span) = some index := by
    refine findIdx?_eq_some_iff_getElem.mpr ⟨within, beq_self_eq_true _, ?_⟩
    intro other before same
    exact pairwise_iff_getElem.mp distinct other index _ within before (eq_of_beq same)
  rw [number, found]

theorem exists_words_of_scan (scanned : Token.scan file text = .ok tokens) :
    ∃ words stop, tokens = words ++ [stop] ∧ stop.kind = .endOfInput ∧
      words.Pairwise fun left right => left.span ≠ right.span := by
  obtain ⟨words, rfl, -, follow, standing⟩ := (placed_of_scan_eq_ok scanned).words
  refine ⟨words, _, rfl, rfl, follow.imp_of_mem ?_⟩
  intro left right isLeft _ before same
  obtain ⟨_, _, -, stands⟩ := standing left isLeft
  rw [← same] at before
  exact stands.ordered.not_before before

theorem exists_pairing (scanned : Token.scan file text = .ok tokens)
    (scanned' : Token.scan file' text' = .ok tokens') (same : tokens.map wordOf = tokens'.map wordOf) :
    ∃ left right, Function.Injective left ∧ Function.Injective right ∧
      List.Forall₂ (Pairing.words left right).tokens tokens tokens' := by
  obtain ⟨words, _, rfl, stops, distinct⟩ := exists_words_of_scan scanned
  obtain ⟨words', _, rfl, _, distinct'⟩ := exists_words_of_scan scanned'
  rw [map_append, map_append] at same
  obtain ⟨sameWords, sameStop⟩ := append_inj' same rfl
  have sizes : words.length = words'.length := by simpa using congrArg List.length sameWords
  have valueOf : ∀ {token token' : Token}, wordOf token = wordOf token' →
      token.kind = token'.kind ∧ token.value = token'.value := by
    intro token token' words
    obtain ⟨kinds, values⟩ := Prod.mk.inj words
    exact ⟨kinds, String.toList_injective values⟩
  refine ⟨Token.number words, Token.number words', Token.number_injective words,
    Token.number_injective words', rel_append ?_ (.cons ?_ .nil)⟩
  · refine List.forall₂_iff_get.mpr ⟨sizes, fun index within within' => ?_⟩
    have here : wordOf words[index] = wordOf words'[index] := by
      have at_index := congrArg (·[index]?) sameWords
      simpa [getElem?_eq_getElem within, getElem?_eq_getElem within'] using at_index
    obtain ⟨kinds, values⟩ := valueOf here
    refine ⟨kinds, values, fun _ => ?_⟩
    exact (Token.number_getElem distinct within).trans (Token.number_getElem distinct' within').symm
  · obtain ⟨kinds, values⟩ := valueOf (List.cons.inj sameStop).1
    exact ⟨kinds, values, fun inner => absurd stops inner⟩

/-! ## Analyses -/

section Analyses

variable (settings : CheckSettings) (table : ExplanationTable)

theorem Program.problems_eq (injective : Function.Injective left) (injective' : Function.Injective right)
    {linkage linkage' mirror : Linkage} (same : unit.relocate (.pinned left) = unit'.relocate (.pinned right))
    (mirrors : linkage.Mirrors (.pinned left) mirror)
    (mirrors' : linkage'.Mirrors (.pinned right) mirror) (rulebook : Rulebook) :
    problems (Program.violations ⟨unit, linkage⟩ rulebook) =
      problems (Program.violations ⟨unit', linkage'⟩ rulebook) := by
  rw [← Program.violations_skeleton mirrors injective, ← Program.violations_skeleton mirrors' injective', same]

/-- Programs of one skeleton are analysed alike: they cannot be linked, for the same reason, or they have the
same shape and the same diagnostics. -/
theorem Program.content_eq (injective : Function.Injective left) (injective' : Function.Injective right)
    (same : unit.relocate (.pinned left) = unit'.relocate (.pinned right)) (rulebook : Rulebook) :
    (Program.ofUnit unit).map (fun program =>
        (some program.shape, (program.check rulebook settings table).map (·.content))) =
      (Program.ofUnit unit').map (fun program =>
        (some program.shape, (program.check rulebook settings table).map (·.content))) := by
  have links := @CompUnit.link_alike left unit
  have links' := @CompUnit.link_alike right unit'
  rw [← same] at links'
  simp only [Program.ofUnit]
  generalize unit.link = result at links ⊢
  generalize unit'.link = result' at links' ⊢
  generalize (unit.relocate (.pinned left)).linkBare = mirrored at links links'
  cases links with
  | error faults =>
    cases links' with
    | error faults' => exact congrArg Except.error (faults.trans faults'.symm)
  | @ok linkage mirror mirrors =>
    cases links' with
    | @ok linkage' _ mirrors' =>
      have shapes := Program.shape_skeleton mirrors unit
      rw [same, ← Program.shape_skeleton mirrors' unit'] at shapes
      have found := Program.problems_eq injective injective' same mirrors mirrors' (settings.select rulebook)
      have diagnostics : (Program.check ⟨unit, linkage⟩ rulebook settings table).map (·.content) =
          (Program.check ⟨unit', linkage'⟩ rulebook settings table).map (·.content) :=
        settings.contents_eq table (fun _ _ => rfl) found
      exact congrArg Except.ok (Prod.ext (congrArg some shapes) diagnostics)

theorem analyze_content_eq (scanned : Token.scan file text = .ok tokens)
    (scanned' : Token.scan file' text' = .ok tokens') (same : tokens.map wordOf = tokens'.map wordOf) :
    (analyze file text settings table).map (·.content) = (analyze file' text' settings table).map (·.content) := by
  obtain ⟨_, _, injective, injective', paired⟩ := exists_pairing scanned scanned' same
  have reads := Pairing.ofTokens_reads paired file file'
  simp only [analyze, CompUnit.ofText, scanned, scanned', bind, Except.bind]
  generalize CompUnit.ofTokens file tokens = result at reads ⊢
  generalize CompUnit.ofTokens file' tokens' = result' at reads ⊢
  cases reads with
  | @error reports reports' lists =>
    have found : problems reports = problems reports' := by
      induction lists with
      | nil => rfl
      | cons first _ ih => exact congrArg₂ List.cons first ih
    exact congrArg Except.ok (Prod.ext rfl (settings.contents_eq table (fun _ _ => rfl) found))
  | @ok unit unit' units =>
    have content := Program.content_eq settings table injective injective' units Rulebook.standard
    dsimp only
    generalize Program.ofUnit unit = program at content ⊢
    generalize Program.ofUnit unit' = program' at content ⊢
    cases program <;> cases program' <;> exact content

end Analyses

/-- The analysis of a text does not depend on its layout. Every text with the same words has the same outcome:
both are read or neither is, the programs have the same shape and their names the same meanings, and the
diagnostics are the same, in the same order, in all but their places. One of these texts is the plain layout
of the tokens, with the end of the input among them or without it. -/
theorem analyze_ignores_layout (file : String) (text : Text) (tokens : List Token)
    (scanned : Token.scan file text = .ok tokens) :
    (∀ (file' : String) (text' : Text) (tokens' : List Token), Token.scan file' text' = .ok tokens' →
      tokens'.map wordOf = tokens.map wordOf → ∀ (settings : CheckSettings) (table : ExplanationTable),
        (analyze file' text' settings table).map (·.content) = (analyze file text settings table).map (·.content)) ∧
    ∀ list, list = tokens ∨ list = tokens.dropLast → ∀ file' : String, ∃ tokens',
      Token.scan file' (Token.spaced list) = .ok tokens' ∧ tokens'.map wordOf = tokens.map wordOf := by
  constructor
  · intro file' text' tokens' scanned' same settings table
    exact analyze_content_eq settings table scanned' scanned same
  · intro list either file'
    exact scan_spaced scanned either file'

/-- A comment with the end of a line in it stands where another text has a space. -/
theorem analyze_ignores_comment :
    ∃ tokens tokens', Token.scan "a.sy" "int f()\x7breturn y/*\n*/;\x7d".toList = .ok tokens ∧
      Token.scan "b.sy" "int f ( ) \x7b return y ; \x7d ".toList = .ok tokens' ∧
      ((analyze "b.sy" "int f ( ) \x7b return y ; \x7d ".toList {} .standard).map (·.content) =
        (analyze "a.sy" "int f()\x7breturn y/*\n*/;\x7d".toList {} .standard).map (·.content)) := by
  have words : (Token.scan "a.sy" "int f()\x7breturn y/*\n*/;\x7d".toList).map (·.map wordOf) =
      (Token.scan "b.sy" "int f ( ) \x7b return y ; \x7d ".toList).map (·.map wordOf) := by
    cbv
  obtain ⟨tokens, scanned⟩ : ∃ tokens, Token.scan "a.sy" "int f()\x7breturn y/*\n*/;\x7d".toList = .ok tokens :=
    ⟨_, by cbv⟩
  obtain ⟨tokens', scanned'⟩ : ∃ tokens, Token.scan "b.sy" "int f ( ) \x7b return y ; \x7d ".toList = .ok tokens :=
    ⟨_, by cbv⟩
  rw [scanned, scanned'] at words
  exact ⟨tokens, tokens', scanned, scanned', (analyze_ignores_layout _ _ _ scanned).1 _ _ _ scanned'
    (Except.ok.inj words).symm {} .standard⟩

end SysYTools
