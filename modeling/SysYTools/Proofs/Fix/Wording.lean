import SysYTools.Fix.Menu
import SysYTools.Proofs.Diagnostic.Explanation
import SysYTools.Proofs.Message

/-!
The wording of messages and the fixes. A fix takes what it needs from the data of a notice, and the analysis gives it
all of it, so no fix ever looks into the message of such a notice. The message only decides which fix is asked: its
phrases do not occur in explanations, and a phrase occurs in messages of one code only, whose fixes it stands for.
-/

namespace SysYTools

open List SysYTools.Fix

variable {binding : FixBinding} {entry : String × Explanation}

/-! ## Requests with another message -/

namespace Request

variable {request : Request} {field : String} {message : String}

def reword (request : Request) (message : String) : Request :=
  { request with notice := { request.notice with message } }

theorem given_reword (told : (request.payload field).isGiven = true) (read : Text.Reader Text) :
    (request.reword message).given field read = request.given field read := by
  have same : (request.reword message).payload field = request.payload field := rfl
  rw [given, given, same, if_pos told, if_pos told]

theorem name?_reword (told : (request.payload field).isGiven = true) (read : Text.Reader Text) :
    (request.reword message).name? field read = request.name? field read := by
  rw [name?, name?, given_reword told]

theorem count?_reword (told : request.payload field ≠ .null) (read : Text.Reader Text) :
    (request.reword message).count? field read = request.count? field read := by
  have same : (request.reword message).payload field = request.payload field := rfl
  rw [count?, count?, same]
  split
  next empty => exact absurd empty told
  · rfl

/-! ## Fixes that keep to the data -/

def retell (request : Request) (message : String) (data : Value) : Request :=
  { request with notice := { request.notice with message, data } }

/-- The resolvers offer the same for another request. -/
def Agrees (other request : Request) (resolvers : List Resolver) : Prop :=
  ∀ resolver ∈ resolvers, resolver other = resolver request

/-- The resolvers offer the same for another message. -/
def KeepsTo (request : Request) (resolvers : List Resolver) : Prop :=
  ∀ message, ∀ resolver ∈ resolvers, resolver (request.reword message) = resolver request

theorem Agrees.mono {other : Request} {resolvers fewer : List Resolver} (agrees : other.Agrees request resolvers)
    (subset : fewer ⊆ resolvers) : other.Agrees request fewer :=
  fun resolver member => agrees resolver (subset member)

section Agreement

variable {data : Value}

theorem agrees_variableName (same : variableName? (request.retell message data) = variableName? request) :
    (request.retell message data).Agrees request [declareVariable, declareGlobalVariable, renameVariable,
      removeUnusedVariable, commentOutUnusedVariable] := by
  simp only [Agrees, forall_mem_cons, not_mem_nil, false_implies, implies_true, and_true,
    declareVariable, declareGlobalVariable, renameVariable, removeUnusedVariable, commentOutUnusedVariable,
    same]
  exact ⟨rfl, rfl, rfl, rfl, rfl⟩

theorem agrees_functionName (same : functionName? (request.retell message data) = functionName? request) :
    (request.retell message data).Agrees request [declareFunction, renameFunction] := by
  simp only [Agrees, forall_mem_cons, not_mem_nil, false_implies, implies_true, and_true,
    declareFunction, renameFunction, same]
  exact ⟨rfl, rfl⟩

theorem agrees_arrayName (same : arrayName? (request.retell message data) = arrayName? request) :
    (request.retell message data).Agrees request [resizeArray, trimInitializer] := by
  simp only [Agrees, forall_mem_cons, not_mem_nil, false_implies, implies_true, and_true,
    resizeArray, trimInitializer, same]
  exact ⟨rfl, rfl⟩

theorem agrees_arity (same : arity? (request.retell message data) = arity? request) :
    (request.retell message data).Agrees request [adjustArgumentsLater] := by
  simp only [Agrees, forall_mem_cons, not_mem_nil, false_implies, implies_true, and_true, adjustArgumentsLater, same]
  rfl

theorem agrees_keyword (same : (request.retell message data).given "keyword" MessagePart.jumpKeyword =
      request.given "keyword" MessagePart.jumpKeyword) :
    (request.retell message data).Agrees request [removeJump] := by
  have keyword : jumpKeyword? (request.retell message data) = jumpKeyword? request := by
    rw [jumpKeyword?, jumpKeyword?, same]
    rfl
  simp only [Agrees, forall_mem_cons, not_mem_nil, false_implies, implies_true, and_true, removeJump, keyword]
  rfl

theorem agrees_returnType (same : returnType (request.retell message data) = returnType request) :
    (request.retell message data).Agrees request [addReturnLater, addReturn, fillReturn] := by
  simp only [Agrees, forall_mem_cons, not_mem_nil, false_implies, implies_true, and_true,
    addReturnLater, addReturn, fillReturn, same]
  exact ⟨rfl, rfl, rfl⟩

theorem agrees_shape (same : (request.retell message data).given "shape" MessagePart.initializerShape =
      request.given "shape" MessagePart.initializerShape) :
    (request.retell message data).Agrees request [reshapeInitializer] := by
  simp only [Agrees, forall_mem_cons, not_mem_nil, false_implies, implies_true, and_true, reshapeInitializer, same]
  rfl

theorem agrees_expected (same : (request.retell message data).given "expected" MessagePart.missingBracket =
      request.given "expected" MessagePart.missingBracket) :
    (request.retell message data).Agrees request [insertBracket] := by
  simp only [Agrees, forall_mem_cons, not_mem_nil, false_implies, implies_true, and_true, insertBracket, same]
  rfl

theorem agrees_document :
    (request.retell message data).Agrees request [keepCall, dropReturnValue, insertSemicolon] := by
  simp only [Agrees, forall_mem_cons, not_mem_nil, false_implies, implies_true, and_true]
  exact ⟨rfl, rfl, rfl⟩

end Agreement

theorem keepsTo_counts (expected : request.payload "expectedCount" ≠ .null)
    (actual : request.payload "actualCount" ≠ .null) : request.KeepsTo [adjustArgumentsLater, adjustArguments] := by
  intro message
  have same : arity? (request.reword message) = arity? request := by
    rw [arity?, arity?, count?_reword expected, count?_reword actual]
  simp only [forall_mem_cons, not_mem_nil, false_implies, implies_true, and_true,
    adjustArgumentsLater, adjustArguments, same]
  exact ⟨rfl, rfl⟩

/-- The notice is about a problem: it has its code and its facts. -/
structure About (request : Request) (problem : Problem) : Prop where
  code : request.notice.code = some problem.code.name
  data : ∃ category : String, request.notice.data = .record (problem.payload ++ [("category", .text category)])

variable {problem : Problem}

theorem About.payload_eq (about : request.About problem) {value : Value}
    (fact : problem.payload.lookup field = some value) : request.payload field = value := by
  obtain ⟨_, data⟩ := about.data
  rw [payload, data, Value.field?, lookup_append, fact]
  rfl

theorem About.isGiven (about : request.About problem) (sound : problem.Sound) {value : String}
    (fact : problem.payload.lookup field = some (.text value)) : (request.payload field).isGiven = true := by
  obtain ⟨_, _, split, -⟩ := lookup_eq_some_iff.mp fact
  have given : Value.text value ≠ .text "" := sound.named (field, .text value) (by rw [split]; simp)
  rw [about.payload_eq fact, Value.isGiven, bne_iff_ne]
  rintro rfl
  exact given rfl

end Request

/-! ## The fixes of a problem -/

/-- The fixes for the problems of a code. -/
def Code.fixes : Code → List Resolver
  | .undefinedVariable => [declareVariable, declareGlobalVariable]
  | .duplicateDeclaration => [renameVariable]
  | .arraySizeOverflow => [resizeArray, trimInitializer]
  | .undefinedFunction => [declareFunction]
  | .duplicateFunction => [renameFunction]
  | .parameterMismatch => [adjustArgumentsLater, adjustArguments]
  | .invalidBreakContinue => [removeJump]
  | .missingReturn => [addReturnLater, addReturn]
  | .emptyReturn => [fillReturn]
  | .voidReturnValue => [dropReturnValue]
  | .voidAssignment => [keepCall]
  | .typeMismatch => [reshapeInitializer]
  | .missingSemicolon => [insertSemicolon]
  | .unmatchedBrackets => [insertBracket]
  | .unusedVariable => [removeUnusedVariable, commentOutUnusedVariable]
  | .syntaxError => []

theorem Request.About.keepsTo {request : Request} {problem : Problem} (about : request.About problem)
    (sound : problem.Sound) : request.KeepsTo problem.code.fixes := by
  cases problem with
  | argumentCount =>
    have expected := @About.payload_eq request "expectedCount" _ about _ rfl
    have actual := @About.payload_eq request "actualCount" _ about _ rfl
    exact keepsTo_counts (by simp [expected]) (by simp [actual])
  | undefinedVariable name | duplicateDeclaration name | unusedVariable name =>
    intro message
    have same := @name?_reword _ "variableName" message (about.isGiven sound rfl) MessagePart.quotedName
    exact (agrees_variableName same).mono (by simp [Problem.code, Code.fixes])
  | undefinedFunction name | duplicateFunction name =>
    intro message
    have same := @name?_reword _ "functionName" message (about.isGiven sound rfl) MessagePart.quotedName
    exact (agrees_functionName same).mono (by simp [Problem.code, Code.fixes])
  | arrayOverflow name =>
    intro message
    exact agrees_arrayName (@name?_reword _ _ message (about.isGiven sound rfl) MessagePart.arrayName)
  | missingReturn | emptyReturn =>
    intro message
    have same : returnType (request.reword message) = returnType request := by
      rw [returnType, returnType, name?_reword (about.isGiven sound rfl)]
    exact (agrees_returnType same).mono (by simp [Problem.code, Code.fixes])
  | strayJump => exact fun message => agrees_keyword (given_reword (about.isGiven sound rfl) _)
  | initializerShape => exact fun message => agrees_shape (given_reword (about.isGiven sound rfl) _)
  | missingBracket => exact fun message => agrees_expected (given_reword (about.isGiven sound rfl) _)
  | _ => exact fun message => agrees_document.mono (by simp [Problem.code, Code.fixes])

namespace FixTable

theorem standard_byCode {code : Code} (found : standard.byCode.find? (·.key == code.name) = some binding) :
    binding.primary :: binding.further = code.fixes := by
  cases code <;> cases found <;> rfl

/-- The phrases by which messages are told apart, and the codes of the problems with such messages. -/
def phrases : List (String × Option Code) :=
  [ ("use of undefined variable", some .undefinedVariable),
    ("undeclared variable", none),
    ("cannot redeclare block-scoped variable", some .duplicateDeclaration),
    ("more initializer elements than the array size", some .arraySizeOverflow),
    ("call to undefined function", some .undefinedFunction),
    ("is already defined", some .duplicateFunction),
    ("parameter count mismatch", some .parameterMismatch),
    ("statement can only be used inside a loop", some .invalidBreakContinue),
    ("is missing a return statement", some .missingReturn),
    ("must not return empty", some .emptyReturn),
    ("void function must not return a value", some .voidReturnValue),
    ("void value cannot be used", some .voidAssignment),
    ("missing semicolon", some .missingSemicolon),
    ("unmatched bracket", some .unmatchedBrackets),
    ("unused variable", some .unusedVariable) ]

private theorem exists_paired {α β : Type} {related : α → β → Prop} {left : List α} {right : List β}
    (paired : List.Forall₂ related left right) : ∀ item ∈ left, ∃ other ∈ right, related item other := by
  induction paired with
  | nil => simp
  | cons first _ ih =>
    refine forall_mem_cons.mpr ⟨⟨_, mem_cons_self, first⟩, fun item member => ?_⟩
    obtain ⟨other, isOther, holds⟩ := ih item member
    exact ⟨other, mem_cons_of_mem _ isOther, holds⟩

theorem standard_byMessage : ∀ binding ∈ standard.byMessage, ∃ phrase ∈ phrases, binding.key = phrase.1 ∧
    ∀ code, phrase.2 = some code → binding.primary :: binding.further ⊆ code.fixes := by
  refine exists_paired ?_
  unfold phrases
  repeat' first
    | exact List.Forall₂.nil
    | refine List.Forall₂.cons ⟨rfl, ?_⟩ ?_
  all_goals
    intro code same
    cases same
  all_goals simp [Code.fixes]

theorem code_of_mayHold (problem : Problem) :
    ∀ phrase ∈ phrases, problem.template.mayHold phrase.1.toList = false ∨ phrase.2 = some problem.code := by
  simp only [phrases, forall_mem_cons]
  cases problem with
  | expected expectation =>
    dsimp only [Problem.template, Problem.code, Problem.template.found, Template.ofString, Template.gap]
    split <;> cases expectation <;> dsimp only [Expectation.describe] <;> repeat rw [String.toList_ofList]
    all_goals decide +kernel
  | unexpectedInExpression =>
    dsimp only [Problem.template, Problem.code, Problem.template.found, Template.ofString, Template.gap]
    split <;> repeat rw [String.toList_ofList]
    all_goals decide +kernel
  | initializerShape _ wantsArray =>
    dsimp only [Problem.template, Problem.code, Template.ofString, Template.gap]
    cases wantsArray <;> dsimp only [Problem.shapeName] <;> repeat rw [String.toList_ofList]
    all_goals decide +kernel
  | strayJump jump =>
    dsimp only [Problem.template, Problem.code, Template.ofString, Template.gap]
    cases jump <;> dsimp only [Jump.keyword] <;> repeat rw [String.toList_ofList]
    all_goals decide +kernel
  | _ =>
    dsimp only [Problem.template, Problem.code, Template.ofString, Template.gap]
    repeat rw [String.toList_ofList]
    decide +kernel

theorem hasPart_below (isEntry : entry ∈ ExplanationTable.standard.entries) {phrase : String × Option Code}
    (isPhrase : phrase ∈ phrases) : Text.hasPart entry.2.below phrase.1.toList = false := by
  have all : ∀ entry ∈ ExplanationTable.standard.entries,
      (phrases.map (·.1.toList)).all (fun key => !Text.hasPart entry.2.below key) = true := by
    simp only [ExplanationTable.standard, phrases, map_cons, map_nil, forall_mem_cons,
      not_mem_nil, false_implies, implies_true, and_true, Explanation.below_eq, String.toList_append]
    repeat rw [String.toList_ofList]
    and_intros <;> decide +kernel
  have none := all_eq_true.mp (all entry isEntry) _ (mem_map_of_mem isPhrase)
  simpa using none

theorem feed_notMem_phrase : ∀ phrase ∈ phrases, '\n' ∉ phrase.1.toList := by
  simp only [phrases, forall_mem_cons, not_mem_nil, false_implies, implies_true, and_true]
  repeat rw [String.toList_ofList]
  decide +kernel

theorem fixes_of_hasPart {problem : Problem} (sound : problem.Sound) (member : binding ∈ standard.byMessage)
    (stands : Text.hasPart problem.message.toList binding.key.toList = true) :
    binding.primary :: binding.further ⊆ problem.code.fixes := by
  obtain ⟨phrase, isPhrase, key, fixes⟩ := standard_byMessage binding member
  have holds := (Problem.fills sound.solid).mayHold stands
  rw [key] at holds
  rcases code_of_mayHold problem phrase isPhrase with absent | code
  · rw [absent] at holds
    cases holds
  · exact fixes _ code

theorem hasPart_explained {message : Text} (isEntry : entry ∈ ExplanationTable.standard.entries)
    (member : binding ∈ standard.byMessage) :
    Text.hasPart (message ++ '\n' :: entry.2.below) binding.key.toList = Text.hasPart message binding.key.toList := by
  obtain ⟨phrase, isPhrase, key, -⟩ := standard_byMessage binding member
  rw [key, Text.hasPart_append_cons (feed_notMem_phrase phrase isPhrase), hasPart_below isEntry isPhrase,
    Bool.or_false]

/-! ## Actions -/

variable {request other : Request} {problem : Problem} {message : String}

theorem bindingActions_congr (agrees : other.Agrees request (binding.primary :: binding.further)) :
    bindingActions binding other = bindingActions binding request := by
  obtain ⟨primary, further⟩ := forall_mem_cons.mp agrees
  have same : binding.further.filterMap (offer · other) = binding.further.filterMap (offer · request) := by
    refine filterMap_congr fun resolver member => ?_
    rw [offer, offer, further resolver member]
  rw [bindingActions, bindingActions, offer, offer, primary, same]

theorem codeActions_congr (about : request.About problem) (agrees : other.Agrees request problem.code.fixes)
    (code : other.notice.code = request.notice.code) : standard.codeActions other = standard.codeActions request := by
  rw [codeActions, codeActions, code, about.code]
  dsimp only
  split
  · rfl
  next binding found =>
    apply bindingActions_congr
    rwa [standard_byCode found]

theorem messageActions_congr (sound : problem.Sound) (agrees : other.Agrees request problem.code.fixes)
    (phrased : ∀ binding ∈ standard.byMessage, Text.hasPart request.notice.message.toList binding.key.toList =
      Text.hasPart problem.message.toList binding.key.toList)
    (phrased' : ∀ binding ∈ standard.byMessage, Text.hasPart other.notice.message.toList binding.key.toList =
      Text.hasPart problem.message.toList binding.key.toList) :
    standard.messageActions other = standard.messageActions request := by
  simp only [messageActions, find?_congr phrased, find?_congr phrased']
  split
  · rfl
  next binding found =>
    have stands := find?_some found
    exact bindingActions_congr (agrees.mono (fixes_of_hasPart sound (mem_of_find?_eq_some found) stands))

theorem explained_shape (problem : Problem) :
    ∃ rest, (ExplanationTable.standard.enrichSafely problem.message).toList = problem.message.toList ++ rest ∧
      ∀ binding ∈ standard.byMessage,
        Text.hasPart (ExplanationTable.standard.enrichSafely problem.message).toList binding.key.toList =
          Text.hasPart problem.message.toList binding.key.toList := by
  have answer := ExplanationTable.enrich_standard problem.message
  rcases ExplanationTable.enrich_standard_cases problem.message_ne_empty with
    same | ⟨entry, isEntry, enriched, found, shape⟩
  · rw [same] at answer
    rw [← Except.ok.inj answer]
    exact ⟨[], (append_nil _).symm, fun _ _ => rfl⟩
  · rw [found] at answer
    rw [← Except.ok.inj answer, shape]
    exact ⟨_, rfl, fun binding member => hasPart_explained isEntry member⟩

theorem actions_reword (about : request.About problem) (sound : problem.Sound)
    (plain : request.notice.message = problem.message) :
    standard.actions (request.reword (ExplanationTable.standard.enrichSafely problem.message)) =
      standard.actions request := by
  obtain ⟨-, -, phrased⟩ := explained_shape problem
  have agrees : Request.Agrees (request.reword (ExplanationTable.standard.enrichSafely problem.message)) request
      problem.code.fixes := about.keepsTo sound _
  rw [actions, actions, codeActions_congr about agrees rfl,
    messageActions_congr sound agrees (fun _ _ => by rw [plain]) phrased]

end FixTable

end SysYTools
