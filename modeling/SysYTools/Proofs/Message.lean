import SysYTools.Proofs.Editor.Notice
import SysYTools.Proofs.Text.Template
import SysYTools.Proofs.Token.Signs

/-!
What the messages of problems can say. A message has fixed letters and words of the program, and no word of
a program has a space. So the template of a message tells which parts can stand in it, whatever the program.
The names that a problem hands on to a repair are never empty.
-/

namespace SysYTools

open List Grammar Lexis

variable {c : Char} {file : String} {length : Nat} {problem : Problem} {report : Report} {reports : List Report}
  {rest text : Text} {unit : CompUnit}

def IsSolid (word : String) : Prop := word ≠ "" ∧ ' ' ∉ word.toList ∧ '\n' ∉ word.toList

instance (word : String) : Decidable (IsSolid word) := inferInstanceAs (Decidable (_ ∧ _))

namespace Problem

/-- The words of the program that stand in the message. The end of a text is no word. -/
def words : Problem → List String
  | .invalidOctal written => [written]
  | .unexpectedCharacter character => [String.singleton character]
  | .expected _ got | .unexpectedInExpression got => if got = "end of input" then [] else [got]
  | .missingSemicolon after => [after]
  | .missingBracket bracket after => [String.singleton bracket, after]
  | .duplicateDeclaration name | .undefinedVariable name | .arrayOverflow name _ _
  | .initializerShape name _ | .unusedVariable name | .undefinedFunction name
  | .duplicateFunction name => [name]
  | .missingReturn _ returnType | .emptyReturn _ returnType => [returnType]
  | _ => []

open Template in
/-- The message with gaps for the words of the program and for numbers. -/
def template : Problem → Template
  | .unterminatedComment => ofString "unterminated block comment"
  | .hexWithoutDigits => ofString "hexadecimal literal has no digits"
  | .invalidOctal _ => ofString "invalid octal literal '" ++ gap ++ ofString "'"
  | .unexpectedCharacter _ => ofString "unexpected character '" ++ gap ++ ofString "'"
  | .expected expectation got =>
    ofString "expected " ++ ofString expectation.describe ++ ofString ", got " ++ found got
  | .voidVariable => ofString "variables cannot have type 'void'"
  | .unexpectedInExpression got => ofString "unexpected " ++ found got ++ ofString " in expression"
  | .badAssignmentTarget => ofString "left side of assignment must be a variable"
  | .missingSemicolon _ => ofString "missing semicolon after '" ++ gap ++ ofString "'."
  | .missingBracket _ _ =>
    ofString "unmatched bracket: missing '" ++ gap ++ ofString "' after '" ++ gap ++ ofString "'."
  | .duplicateDeclaration _ => ofString "cannot redeclare block-scoped variable '" ++ gap ++ ofString "'."
  | .undefinedVariable _ => ofString "use of undefined variable '" ++ gap ++ ofString "'."
  | .arrayOverflow _ _ _ => ofString "array " ++ gap ++ ofString " has more initializer elements than the array size."
  | .initializerShape _ wantsArray =>
    ofString "type mismatch: variable '" ++ gap ++ ofString "' expects a " ++
      ofString (shapeName wantsArray) ++ ofString " initializer."
  | .unusedVariable _ => ofString "unused variable '" ++ gap ++ ofString "'."
  | .undefinedFunction _ => ofString "call to undefined function '" ++ gap ++ ofString "'."
  | .argumentCount _ _ _ =>
    ofString "parameter count mismatch. Expected " ++ gap ++ ofString " arguments, but the call passes " ++
      gap ++ ofString "."
  | .voidValue _ => ofString "void value cannot be used in an expression or assignment."
  | .missingReturn _ _ => ofString "function with return type " ++ gap ++ ofString " is missing a return statement."
  | .emptyReturn _ _ => ofString "function with return type " ++ gap ++ ofString " must not return empty."
  | .voidReturnValue _ => ofString "void function must not return a value."
  | .duplicateFunction _ => ofString "function name '" ++ gap ++ ofString "' is already defined."
  | .strayJump jump => ofString "'" ++ ofString jump.keyword ++ ofString "' statement can only be used inside a loop."
where
  found (got : String) : Template := if got = "end of input" then Template.ofString "end of input" else Template.gap

structure Sound (problem : Problem) : Prop where
  solid : ∀ word ∈ problem.words, ' ' ∉ word.toList
  named : ∀ entry ∈ problem.payload, entry.2 ≠ .text ""

theorem found_fills {got : String} (solid : ∀ word ∈ if got = "end of input" then [] else [got], ' ' ∉ word.toList) :
    (template.found got).Fills got.toList := by
  rw [template.found]
  split
  next same =>
    rw [same]
    exact .ofString _
  next other =>
    rw [if_neg other] at solid
    exact .gap (solid got mem_cons_self)

theorem fills (solid : ∀ word ∈ problem.words, ' ' ∉ word.toList) : problem.template.Fills problem.message.toList := by
  cases problem with
  | unterminatedComment | hexWithoutDigits | voidVariable | badAssignmentTarget | voidValue
  | voidReturnValue => exact .ofString _
  | invalidOctal | unexpectedCharacter | missingSemicolon | duplicateDeclaration | undefinedVariable
  | arrayOverflow | unusedVariable | undefinedFunction | missingReturn | emptyReturn
  | duplicateFunction => exact .join (.join (.ofString _) (.gap (solid _ mem_cons_self))) (.ofString _)
  | expected => exact .join (.join (.join (.ofString _) (.ofString _)) (.ofString _)) (found_fills solid)
  | unexpectedInExpression => exact .join (.join (.ofString _) (found_fills solid)) (.ofString _)
  | missingBracket _ after =>
    obtain ⟨solidBracket, solidAfter⟩ := forall_mem_cons.mp solid
    exact .join (.join (.join (.join (.ofString _) (.gap solidBracket)) (.ofString _))
      (.gap (solidAfter after mem_cons_self))) (.ofString _)
  | initializerShape name =>
    exact .join (.join (.join (.join (.ofString _) (.gap (solid name mem_cons_self))) (.ofString _))
      (.ofString _)) (.ofString _)
  | argumentCount _ wanted given =>
    exact .join (.join (.join (.join (.ofString _) (.gap (Literal.space_notMem_toString wanted))) (.ofString _))
      (.gap (Literal.space_notMem_toString given))) (.ofString _)
  | strayJump => exact .join (.join (.ofString _) (.ofString _)) (.ofString _)

theorem message_ne_empty (problem : Problem) : problem.message ≠ "" := by
  have start : ∀ {first second : String}, first ≠ "" → first ++ second ≠ "" := by
    intro first second some empty
    exact some (String.append_eq_empty_iff.mp empty).1
  cases problem with
  | unterminatedComment | hexWithoutDigits | voidVariable | badAssignmentTarget | voidValue
  | voidReturnValue =>
    dsimp only [message]
    decide
  | invalidOctal | unexpectedCharacter | missingSemicolon | duplicateDeclaration | undefinedVariable
  | arrayOverflow | unusedVariable | undefinedFunction | missingReturn | emptyReturn
  | duplicateFunction | unexpectedInExpression | strayJump => exact start (start (by decide))
  | expected => exact start (start (start (by decide)))
  | _ => exact start (start (start (start (by decide))))

end Problem

/-! ## Problems of reading -/

/-- The problems that words can have. -/
inductive Problem.IsLexical : Problem → Prop where
  | unterminatedComment : IsLexical .unterminatedComment
  | hexWithoutDigits : IsLexical .hexWithoutDigits
  | invalidOctal {written : String} : ' ' ∉ written.toList → IsLexical (.invalidOctal written)
  | unexpectedCharacter {c : Char} : c ≠ ' ' → IsLexical (.unexpectedCharacter c)

theorem Problem.IsLexical.sound (lexical : problem.IsLexical) : problem.Sound := by
  constructor
  · cases lexical with
    | unterminatedComment | hexWithoutDigits => simp [words]
    | invalidOctal solid => simpa [words] using solid
    | unexpectedCharacter other => simpa [words] using other.symm
  · cases lexical <;> simp [payload]

theorem Lexeme.isLexical_of_badInteger (found : Lexeme.read c rest = (.badInteger problem, length)) :
    problem.IsLexical := by
  have hexadecimal : ∀ text, Lexeme.hexadecimal text = (.badInteger problem, length) → problem.IsLexical := by
    intro text found
    rw [Lexeme.hexadecimal] at found
    split at found
    · cases found
      exact .hexWithoutDigits
    · cases found
  have decimal : ∀ text, Lexeme.decimal text = (.badInteger problem, length) → problem.IsLexical := by
    intro text found
    simp only [Lexeme.decimal, Prod.mk.injEq] at found
    obtain ⟨found, -⟩ := found
    split at found
    · cases found
    · split at found
      · cases found
        apply Problem.IsLexical.invalidOctal
        rw [String.toList_ofList]
        intro member
        have digit := mem_takeWhile_imp member
        cases digit
      · cases found
  simp only [Lexeme.read] at found
  split at found
  · cases found
  next =>
  split at found
  · cases found
  next =>
  split at found
  · split at found <;> cases found
  next =>
  split at found
  · exact hexadecimal _ found
  next =>
  split at found
  · exact decimal _ found
  next =>
  split at found
  · cases found
  next =>
  split at found
  · cases found
  · split at found <;> cases found

theorem Lexeme.ne_space_of_unknown (found : Lexeme.read c rest = (.unknown, length)) : c ≠ ' ' := by
  rintro rfl
  cases found

theorem Scan.isLexical_of_mem_reports (member : report ∈ (Scan.ofText file text).reports) :
    report.problem.IsLexical := by
  obtain ⟨-, _, _, _, -, -, problem | found | ⟨problem, found⟩⟩ := @Scan.exists_piece file [] text report member
  · exact problem ▸ .unterminatedComment
  · exact Lexeme.isLexical_of_badInteger found
  · exact problem ▸ .unexpectedCharacter (Lexeme.ne_space_of_unknown found)

theorem Parser.Blames.sound {token : Token} (solid : ' ' ∉ token.value.toList)
    (blames : Parser.Blames token problem) : problem.Sound := by
  have described : ∀ word ∈ if token.describe = "end of input" then [] else [token.describe],
      ' ' ∉ word.toList := by
    split
    · simp
    next other =>
      have named : token.describe = "'" ++ token.value ++ "'" := by
        rw [Token.describe] at other ⊢
        split
        next isEnd => exact absurd (if_pos isEnd) other
        · rfl
      simpa [named] using solid
  cases blames with
  | expected | unexpected => exact ⟨described, by simp [Problem.payload]⟩
  | voidVariable | badTarget => exact ⟨by simp [Problem.words], by simp [Problem.payload]⟩
  | semicolon => exact ⟨by simpa [Problem.words] using solid, by simp [Problem.payload]⟩
  | bracket closes =>
    refine ⟨?_, by simp [Problem.payload]⟩
    have other : ∀ bracket, isClosingBracket bracket = true → ' ' ≠ bracket := by
      rintro _ closes rfl
      cases closes
    simpa [Problem.words] using ⟨other _ closes, solid⟩
  | branchParen | loopParen => exact ⟨by simp [Problem.words], by simp [Problem.payload]⟩

theorem Lexis.Stands.isSolid_value {before value : Text} {word : Token}
    (stands : Stands file text word before value) : IsSolid word.value := by
  constructor
  · intro empty
    refine stands.isToken.ne_nil ?_
    rw [← stands.value_eq, empty]
    rfl
  · rw [stands.value_eq]
    refine ⟨fun member => ?_, stands.isToken.no_feed⟩
    have blank := stands.isToken.not_blank ' ' member
    cases blank

theorem CompUnit.problem_of_ofText_error (failed : CompUnit.ofText file text = .error reports)
    (member : report ∈ reports) :
    report.problem.IsLexical ∨ ∃ token : Token, ' ' ∉ token.value.toList ∧ Parser.Blames token report.problem := by
  rcases CompUnit.cases_of_ofText_error failed member with lexical | ⟨token, -, blames, ⟨_, _, stands⟩ | rfl⟩
  · exact .inl (Scan.isLexical_of_mem_reports lexical)
  · exact .inr ⟨token, stands.isSolid_value.2.1, blames⟩
  · exact .inr ⟨_, by simp [tokenAfter], blames⟩

theorem CompUnit.sound_of_ofText_error (failed : CompUnit.ofText file text = .error reports)
    (member : report ∈ reports) : report.problem.Sound := by
  rcases CompUnit.problem_of_ofText_error failed member with lexical | ⟨_, solid, blames⟩
  · exact lexical.sound
  · exact blames.sound solid

/-! ## Broken rules -/

/-- A problem whose words are names and keywords of a program. -/
structure Problem.Worded (problem : Problem) : Prop extends problem.Sound where
  words : ∀ word ∈ problem.words, IsSolid word

theorem Problem.Worded.of_words (words : List String) (solid : ∀ word ∈ words, IsSolid word)
    (said : problem.words ⊆ words)
    (given : ∀ entry ∈ problem.payload, ∀ value, entry.2 = .text value → value ∈ words) : problem.Worded :=
  ⟨⟨fun word member => (solid word (said member)).2.1,
    fun entry member empty => (solid "" (given entry member "" empty)).1 rfl⟩,
    fun word member => solid word (said member)⟩

theorem BaseType.isSolid_name (type : BaseType) : IsSolid type.name := by
  cases type <;> decide

theorem Lexical.name_of_functionTarget {reference : Reference} {func : FuncDef}
    (found : functionTarget unit reference = some (.function func)) : func.name = reference.name := by
  rw [functionTarget, Option.map_eq_some_iff] at found
  obtain ⟨_, found, same⟩ := found
  cases same
  simpa using find?_some found

theorem Breach.worded {site : Node.Site} {code : Code} (solid : ∀ name ∈ site.node.names, IsSolid name.name)
    (breach : Breach unit site code report) : report.problem.Worded := by
  cases breach with
  | @duplicateFunction func =>
    have named : IsSolid func.name := solid ⟨func.name, func.nameSpan⟩ mem_cons_self
    exact .of_words [func.name] (by simpa using named) (by simp [Problem.words]) (by simp [Problem.payload])
  | @missingReturn func type | @emptyReturn func type =>
    have named : IsSolid func.name := solid ⟨func.name, func.nameSpan⟩ mem_cons_self
    exact .of_words [func.name, type.name] (by simpa using ⟨named, type.isSolid_name⟩)
      (by simp [Problem.words]) (by simp [Problem.payload])
  | @voidReturnValue func =>
    have named : IsSolid func.name := solid ⟨func.name, func.nameSpan⟩ mem_cons_self
    exact .of_words [func.name, "void"] (by simpa using ⟨named, by decide⟩) (by simp [Problem.words])
      (by simp [Problem.payload])
  | @duplicateDeclaration _ var | @arrayOverflow var =>
    have named : IsSolid var.name := solid ⟨var.name, var.nameSpan⟩ mem_cons_self
    exact .of_words [var.name] (by simpa using named) (by simp [Problem.words]) (by simp [Problem.payload])
  | @scalarList var | @arrayValue var =>
    have named : IsSolid var.name := solid ⟨var.name, var.nameSpan⟩ mem_cons_self
    exact .of_words [var.name, "array", "scalar"] (by simpa using ⟨named, by decide⟩)
      (by simp [Problem.words]) (by simp [Problem.payload, Problem.shapeName])
  | @undefinedVariable reference | @undefinedFunction reference =>
    have named : IsSolid reference.name := solid reference mem_cons_self
    exact .of_words [reference.name] (by simpa using named) (by simp [Problem.words]) (by simp [Problem.payload])
  | @argumentCount reference _ _ _ _ found | @voidValue reference _ _ _ _ found =>
    have named : IsSolid reference.name := solid reference mem_cons_self
    rw [← Lexical.name_of_functionTarget found] at named
    exact .of_words [_] (by simpa using named) (by simp [Problem.words]) (by simp [Problem.payload])
  | @strayJump jump =>
    exact .of_words ["break", "continue"] (by decide) (by simp [Problem.words])
      (by cases jump <;> simp [Problem.payload, Jump.keyword])

theorem Program.worded_of_violations {linkage : Linkage} {settings : CheckSettings}
    (parsed : CompUnit.ofText file text = .ok unit) (linked : unit.link = .ok linkage)
    (member : report ∈ Program.violations { unit, linkage } (settings.select Rulebook.standard)) :
    report.problem.Worded := by
  obtain ⟨_, source⟩ := CompUnit.exists_source parsed
  have named : ∀ part ∈ (Node.unit unit).walk, ∀ name ∈ part.names, IsSolid name.name := by
    intro part isPart name isName
    obtain ⟨token, isToken, rfl⟩ := source.written part isPart name isName
    obtain ⟨_, _, stands⟩ := source.stands token isToken
    exact stands.isSolid_value
  rcases Program.cases_of_violations (CompUnit.aligned_of_ofText parsed) linked member with
    ⟨site, isSite, broken⟩ | ⟨var, isPart, -, rfl⟩
  · exact broken.worded (named site.node (mem_map_of_mem isSite))
  · have solid : IsSolid var.name := named _ isPart ⟨var.name, var.nameSpan⟩ mem_cons_self
    exact .of_words [var.name] (by simpa using solid) (by simp [Problem.words]) (by simp [Problem.payload])

end SysYTools
