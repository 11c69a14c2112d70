import SysYTools.Proofs.Editor.Enrichment

/-!
Notices that have lost their data. An editor may send a notice back without the data that it came with, and a
fix has to read the message then. For the notices of an analysis it finds there what the data said, so the same
actions are offered. Only the edit of a call with the wrong number of arguments may differ: the name of the
function is not in the message, and without it the edit takes the first call.
-/

namespace SysYTools

open List SysYTools.Fix

variable {name : String} {wanted given : Nat}

def Notice.silent (notice : Notice) : Notice :=
  { notice with data := .null }

namespace Request

def silent (request : Request) : Request :=
  { request with notice := request.notice.silent }

variable {request : Request} {problem : Problem} {field : String} {read : Text.Reader Text}

section

variable (about : request.About problem) (sound : problem.Sound) {value : String}
  (fact : problem.payload.lookup field = some (.text value)) (told : request.messagePart? read = some value.toList)
include about sound fact told

theorem given_silent : request.silent.given field read = request.given field read := by
  have given := about.isGiven sound fact
  have said : request.silent.messagePart? read = some value.toList := told
  have unknown : request.silent.payload field = .null := rfl
  rw [Request.given, Request.given, if_pos given, about.payload_eq fact, unknown, said]
  simp [Value.isGiven]

theorem name?_silent : request.silent.name? field read = request.name? field read := by
  rw [name?, name?, given_silent about sound fact told]

end

theorem count?_of_told (about : request.About problem) {count : Nat}
    (fact : problem.payload.lookup field = some (.int count)) :
    request.count? field read = .ok (some (count : Int)) := by
  rw [count?, about.payload_eq fact]
  rfl

theorem count?_silent {count : Nat} (told : request.messagePart? read = some (toString count).toList)
    (small : count < 10 ^ digitLimit) : request.silent.count? field read = .ok (some (count : Int)) := by
  have said : request.silent.messagePart? read = some (toString count).toList := told
  have unknown : request.silent.payload field = .null := rfl
  have short : (toString count).toList.length ≤ digitLimit := by
    rw [show (toString count).toList = Nat.toDigits 10 count from Nat.toList_repr]
    exact Nat.toDigits_length 10 count digitLimit (by decide) small
  rw [count?, unknown]
  simp only [said]
  rw [Radix.readInt_toString short]
  rfl

variable {limit : Nat} {rest : Text}

theorem messagePart?_of_told (readable : problem.Readable limit)
    (said : request.notice.message.toList = problem.message.toList ++ rest) :
    ∀ entry ∈ problem.told, request.messagePart? entry.1 = some entry.2 := by
  intro entry member
  rw [messagePart?, said]
  exact Problem.search?_told readable entry member rest

theorem About.agrees_silent (about : request.About problem) (sound : problem.Sound)
    (readable : problem.Readable limit) (said : request.notice.message.toList = problem.message.toList ++ rest)
    (other : problem.code ≠ .parameterMismatch) : request.silent.Agrees request problem.code.fixes := by
  have told := messagePart?_of_told readable said
  cases problem with
  | undefinedVariable name | duplicateDeclaration name | unusedVariable name =>
    have same := @name?_silent _ _ "variableName" _ about sound _ rfl (told _ mem_cons_self)
    exact (agrees_variableName same).mono (by simp [Problem.code, Code.fixes])
  | undefinedFunction name | duplicateFunction name =>
    have same := @name?_silent _ _ "functionName" _ about sound _ rfl (told _ mem_cons_self)
    exact (agrees_functionName same).mono (by simp [Problem.code, Code.fixes])
  | arrayOverflow name => exact agrees_arrayName (name?_silent about sound rfl (told _ mem_cons_self))
  | missingReturn _ type | emptyReturn _ type =>
    have same : returnType request.silent = returnType request := by
      rw [returnType, returnType, name?_silent about sound rfl (told _ mem_cons_self)]
    exact (agrees_returnType same).mono (by simp [Problem.code, Code.fixes])
  | strayJump => exact agrees_keyword (given_silent about sound rfl (told _ mem_cons_self))
  | initializerShape => exact agrees_shape (given_silent about sound rfl (told _ mem_cons_self))
  | missingBracket bracket =>
    have found : request.messagePart? MessagePart.missingBracket = some (String.singleton bracket).toList := by
      rw [String.toList_singleton]
      exact told _ mem_cons_self
    exact agrees_expected (given_silent about sound rfl found)
  | argumentCount => exact absurd rfl other
  | _ => exact agrees_document.mono (by simp [Problem.code, Code.fixes])

theorem About.arity? (about : request.About (.argumentCount name wanted given)) :
    Fix.arity? request = .ok (some (wanted, given)) := by
  rw [Fix.arity?, @count?_of_told _ _ "expectedCount" _ about wanted rfl,
    @count?_of_told _ _ "actualCount" _ about given rfl]
  rfl

theorem arity?_silent
    (readable : (Problem.argumentCount name wanted given).Readable limit) (small : limit < 10 ^ digitLimit)
    (said : request.notice.message.toList = (Problem.argumentCount name wanted given).message.toList ++ rest) :
    Fix.arity? request.silent = .ok (some (wanted, given)) := by
  obtain ⟨expected, actual⟩ := forall_mem_cons.mp (messagePart?_of_told readable said)
  have actual := actual _ mem_cons_self
  rw [Fix.arity?, count?_silent expected (readable.1.trans_lt small), count?_silent actual (readable.2.trans_lt small)]
  rfl

/-- The edit that is offered besides the command for a call with the wrong number of arguments. -/
def adjusting (request : Request) : List Action :=
  if request.notice.code = some Code.parameterMismatch.name then (FixTable.offer adjustArguments request).toList
  else []

end Request

namespace FixTable

variable {request : Request} {problem : Problem} {limit : Nat} {rest : Text}

theorem actions_of_arity? {counts : Int × Int} (known : arity? request = .ok (some counts))
    (code : request.notice.code = some Code.parameterMismatch.name) :
    ∃ action, offer adjustArgumentsLater request = some action ∧
      standard.actions request = [action] ++ request.adjusting := by
  have offered : ∃ action, offer adjustArgumentsLater request = some action := by
    simp only [offer, adjustArgumentsLater, known]
    exact ⟨_, rfl⟩
  obtain ⟨action, offered⟩ := offered
  have bound : standard.byCode.find? (·.key == Code.parameterMismatch.name) =
      some ⟨Code.parameterMismatch.name, adjustArgumentsLater, [adjustArguments]⟩ := rfl
  refine ⟨action, offered, ?_⟩
  simp only [actions, codeActions, code, bound, bindingActions, offered, Request.adjusting, if_true]
  cases found : offer adjustArguments request <;> simp [found]

theorem actions_silent (about : request.About problem) (sound : problem.Sound)
    (readable : problem.Readable limit) (small : limit < 10 ^ digitLimit)
    (said : request.notice.message.toList = problem.message.toList ++ rest)
    (phrased : ∀ binding ∈ standard.byMessage, Text.hasPart request.notice.message.toList binding.key.toList =
      Text.hasPart problem.message.toList binding.key.toList) :
    ∃ shared, standard.actions request = shared ++ request.adjusting ∧
      standard.actions request.silent = shared ++ request.silent.adjusting := by
  have code : request.silent.notice.code = request.notice.code := rfl
  by_cases counted : problem.code = .parameterMismatch
  · obtain ⟨name, wanted, given, rfl⟩ : ∃ name wanted given, problem = .argumentCount name wanted given := by
      cases problem with
      | argumentCount name wanted given => exact ⟨name, wanted, given, rfl⟩
      | _ => cases counted
    have known := about.arity?
    have known' := Request.arity?_silent readable small said
    have agrees : adjustArgumentsLater request.silent = adjustArgumentsLater request :=
      Request.agrees_arity (known'.trans known.symm) adjustArgumentsLater mem_cons_self
    obtain ⟨action, offered, acts⟩ := actions_of_arity? known about.code
    obtain ⟨action', offered', acts'⟩ := actions_of_arity? known' about.code
    have same : offer adjustArgumentsLater request.silent = offer adjustArgumentsLater request := by
      rw [offer, offer, agrees]
    obtain rfl : action' = action := by
      rw [offered, offered'] at same
      exact Option.some.inj same
    exact ⟨[action'], acts, acts'⟩
  · have agrees := about.agrees_silent sound readable said counted
    have different : ¬ request.notice.code = some Code.parameterMismatch.name := by
      rw [about.code]
      cases code : problem.code <;> simp [code] at counted ⊢ <;> decide
    have unadjusted : request.adjusting = [] := if_neg different
    have unadjusted' : request.silent.adjusting = [] := if_neg different
    refine ⟨standard.actions request, by rw [unadjusted, append_nil], ?_⟩
    rw [unadjusted', append_nil, actions, actions, codeActions_congr about agrees rfl,
      messageActions_congr sound agrees phrased phrased]

end FixTable

namespace Document

variable {document : Document} {settings : Settings}

theorem told_of_analyze {result : Option Analysis} {notices : List Notice}
    (analyzed : document.analyze settings = .ok (result, notices)) {notice : Notice} (member : notice ∈ notices) :
    (notice.code = none ∧ notice.data = .null) ∨
      ∃ problem : Problem, ∃ rest, problem.Sound ∧ problem.Readable (max document.text.length 2) ∧
        (∀ current number, Request.About { document := current, notice, number } problem) ∧
        notice.message.toList = problem.message.toList ++ rest ∧
        ∀ binding ∈ FixTable.standard.byMessage, Text.hasPart notice.message.toList binding.key.toList =
          Text.hasPart problem.message.toList binding.key.toList := by
  cases isGiven : settings.check.enrichMessages.isGiven with
  | false =>
    rcases @notice_of_analyze _ settings document isGiven _ _ analyzed notice member with
      ⟨-, silent⟩ | ⟨problem, sound, readable, said, about⟩
    · exact .inl silent
    · exact .inr ⟨problem, [], sound, readable, about, by rw [said, append_nil], fun _ _ => by rw [said]⟩
  | true =>
    have isPlain : Value.isGiven .null = false := rfl
    have explained := @analyze_explained _ _ settings document isGiven isPlain
    have isSettings : settings.withMessages settings.check.enrichMessages = settings := rfl
    rw [isSettings, analyzed] at explained
    cases plain : document.analyze (settings.withMessages .null) with
    | error => simp [plain, Except.map] at explained
    | ok answer =>
      obtain ⟨_, _⟩ := answer
      rw [plain] at explained
      obtain ⟨-, rfl⟩ := Prod.mk.inj (Except.ok.inj explained)
      obtain ⟨bare, isBare, rfl⟩ := mem_map.mp member
      rcases notice_of_analyze isPlain plain bare isBare with
        ⟨-, unknown⟩ | ⟨problem, sound, readable, said, about⟩
      · exact .inl unknown
      · obtain ⟨rest, shape, phrased⟩ := FixTable.explained_shape problem
        refine .inr ⟨problem, rest, sound, readable, fun current number => ?_, ?_, ?_⟩
        · exact ⟨(about current number).code, (about current number).data⟩
        · rw [Notice.explained, said]
          exact shape
        · rw [Notice.explained, said]
          exact phrased

/-- A notice of an analysis that comes back without its data leads to the same actions as with them, whatever
has become of the document. The one exception is the edit that adjusts the arguments of a call. No text reaches
the length from which on a number of arguments could have more digits than are read. -/
theorem actions_without_data {result : Option Analysis} {notices : List Notice}
    (short : document.text.length < 10 ^ digitLimit) (analyzed : document.analyze settings = .ok (result, notices)) :
    ∀ notice ∈ notices, ∀ current number, ∃ shared, FixTable.standard.actions { document := current, notice, number } =
        shared ++ Request.adjusting { document := current, notice, number } ∧
      FixTable.standard.actions { document := current, notice := { notice with data := .null }, number } =
        shared ++ Request.adjusting { document := current, notice := { notice with data := .null }, number } := by
  intro notice member current number
  rcases told_of_analyze analyzed member with ⟨code, unknown⟩ | ⟨_, _, sound, readable, about, said, phrased⟩
  · have same : { notice with data := .null } = notice := by rw [← unknown]
    have unadjusted : Request.adjusting { document := current, notice, number } = [] := if_neg (by simp [code])
    rw [same, unadjusted]
    exact ⟨_, (append_nil _).symm, (append_nil _).symm⟩
  · have small : max document.text.length 2 < 10 ^ digitLimit := by
      refine max_lt short ?_
      exact Nat.lt_of_lt_of_le (by decide) (Nat.pow_le_pow_right (by decide) (show 1 ≤ digitLimit by decide))
    exact FixTable.actions_silent (about current number) sound readable small said phrased

/-- A bracket that is missing is named in the message of its notice. -/
theorem actions_without_data_unclosed :
    "int f()\x7bf(1;\x7d".toList.length < 10 ^ digitLimit ∧
      ∃ result notices,
        Document.analyze ⟨"t.sy", "int f()\x7bf(1;\x7d".toList⟩ {} = .ok (result, notices) ∧ notices ≠ [] ∧
        ∀ notice ∈ notices, ∀ current number, ∃ shared,
          FixTable.standard.actions { document := current, notice, number } =
            shared ++ Request.adjusting { document := current, notice, number } ∧
          FixTable.standard.actions { document := current, notice := { notice with data := .null }, number } =
            shared ++
              Request.adjusting { document := current, notice := { notice with data := .null }, number } := by
  have short : "int f()\x7bf(1;\x7d".toList.length < 10 ^ digitLimit :=
    Nat.lt_of_lt_of_le (show _ < 10 ^ 2 by decide) (Nat.pow_le_pow_right (by decide) (by decide))
  obtain ⟨⟨result, notices⟩, analyzed⟩ :=
    @analyze_isOk {} ⟨"t.sy", "int f()\x7bf(1;\x7d".toList⟩ (some "sysy") (by decide) rfl
  refine ⟨short, result, notices, analyzed, ?_, actions_without_data short analyzed⟩
  rintro rfl
  have count : (Document.analyze ⟨"t.sy", "int f()\x7bf(1;\x7d".toList⟩ {}).toOption.map (·.2.length) = some 1 := by
    decide +kernel
  rw [analyzed] at count
  cases count

end Document

end SysYTools
