import SysYTools.Fix.Table
import SysYTools.Proofs.Position
import SysYTools.Proofs.Repair.Growth
import SysYTools.Proofs.Scope.Stopping

/-!
Where the edits of fixes stand. A fix edits at one place, at the range of the notice, at whole lines or between two
offsets of the document, so no edit stops before it starts unless the notice does.
-/

namespace SysYTools

open List

variable {start : Position} {α : Type} {edit : Edit} {title : String} {newText : Text} {action : Action}

/-- The faults of values that came from outside, and of numbers in a text. -/
inductive Fault.IsBadArgument : Fault → Prop where
  | notInteger : IsBadArgument .notInteger
  | tooManyDigits (digits : Nat) : IsBadArgument (.tooManyDigits digits)
  | outOfRange (coordinate : Coordinate) (value : Int) : IsBadArgument (.outOfRange coordinate value)
  | missingArgument : IsBadArgument .missingArgument
  | missingField (name : String) : IsBadArgument (.missingField name)
  | wrongKind : IsBadArgument .wrongKind

/-- A computation that fails at such a fault only, or gives one of these values. -/
abbrev Answers {α : Type} (gives : α → Prop) (result : Except Fault α) : Prop :=
  Finishes Fault.IsBadArgument gives result

namespace Position

theorem le_refl (position : Position) : position.le position = true := by simp [Position.le]

theorem ofInts_answers (line character : Int) : Answers (fun _ => True) (ofInts line character) := by
  have checked : ∀ coordinate value, Answers (fun _ => True) (checked coordinate value) := by
    intro coordinate value
    rw [Position.checked]
    split
    · exact .ok trivial
    · exact .error (.outOfRange coordinate value)
  exact (checked .line line).bind fun _ _ => (checked .character character).bind fun _ _ => .ok trivial

end Position

namespace Range

/-- A range that does not stop before it starts. -/
def Ordered (range : Range) : Prop := range.start.le range.stop = true

theorem ofInts_answers {startLine startCharacter stopLine stopCharacter : Int}
    (order : startLine < stopLine ∨ startLine = stopLine ∧ startCharacter ≤ stopCharacter) :
    Answers Ordered (ofInts startLine startCharacter stopLine stopCharacter) := by
  have answers : Answers (fun _ => True) (ofInts startLine startCharacter stopLine stopCharacter) :=
    (Position.ofInts_answers _ _).bind fun _ _ => (Position.ofInts_answers _ _).bind fun _ _ => .ok trivial
  cases made : ofInts startLine startCharacter stopLine stopCharacter with
  | error =>
    rw [made] at answers
    cases answers with
    | error isFault => exact .error isFault
  | ok =>
    rw [ofInts_eq_ok_iff, Position.ofInts_eq_ok_iff, Position.ofInts_eq_ok_iff] at made
    refine .ok ?_
    simp only [Ordered, Position.le, Bool.or_eq_true, Bool.and_eq_true, decide_eq_true_eq, beq_iff_eq]
    omega

theorem line_answers (number : Nat) : Answers Ordered (line number) := ofInts_answers (by omega)

end Range

theorem Document.rangeOf_ordered (document : Document) {start stop : Nat} (order : start ≤ stop) :
    (document.rangeOf start stop).Ordered :=
  document.positionAt_mono order

/-! ## Edits of the text -/

theorem Text.start_le_stop {read : Reader α} {found : Occurrence α} {text : Text} {before : Option Char}
    {index resume : Nat} (member : found ∈ occurrencesFrom read before index resume text) :
    found.start ≤ found.stop := by
  induction text generalizing before index resume with
  | nil => simp [occurrencesFrom] at member
  | cons _ _ ih =>
    simp only [occurrencesFrom] at member
    split at member
    · exact ih member
    · rcases mem_cons.mp member with rfl | later
      · exact Nat.le_add_right _ _
      · exact ih later

namespace Repair

variable {document : Document}

theorem declarationExtent_ordered (document : Document) (line : Nat) :
    (declarationExtent document line).1 ≤ (declarationExtent document line).2 := by
  rw [declarationExtent]
  split
  next semicolon found =>
    obtain ⟨_, -, rfl⟩ := Option.map_eq_some_iff.mp found
    exact Nat.le_succ_of_le (Nat.le_add_right _ _)
  · exact document.offsetAt_le_length _

theorem adjustCallEdit_ordered {count : Int} {isWanted : Text → Bool}
    (made : adjustCallEdit document start count isWanted = some edit) : edit.range.Ordered := by
  simp only [adjustCallEdit, findCall?, Option.bind_eq_bind, Option.bind_eq_some_iff, Option.pure_def,
    Option.some.injEq] at made
  obtain ⟨_, ⟨_, isFound, _, closes, rfl⟩, made⟩ := made
  split at made
  · cases made
  · obtain rfl := Option.some.inj made
    have order := Text.start_le_stop (mem_of_find?_eq_some isFound)
    rw [Text.closingIndex?, Text.closeFrom_shift] at closes
    obtain ⟨_, -, rfl⟩ := Option.map_eq_some_iff.mp closes
    exact document.rangeOf_ordered (by dsimp only; omega)

theorem returnEdit_ordered {typeName : String}
    (made : returnEdit document start typeName = some edit) : edit.range.Ordered := by
  simp only [returnEdit, Option.bind_eq_bind, Option.bind_eq_some_iff] at made
  obtain ⟨_, -, _, -, made⟩ := made
  split at made <;> obtain rfl := Option.some.inj made <;> exact Position.le_refl _

end Repair

/-! ## Fixes -/

/-- An action without an edit that stops before it starts. -/
def Action.Ordered (action : Action) : Prop :=
  ∀ uri edits, action.effect = .edits uri edits → ∀ edit ∈ edits, edit.range.Ordered

/-- An answer that offers such an action, or none. -/
abbrev Offers (answer : Except Fault (Option Action)) : Prop :=
  Finishes (fun _ => True) (fun found => ∀ action, found = some action → Action.Ordered action) answer

theorem Finishes.offers {fails : Fault → Prop} {gives : α → Prop} {result : Except Fault α}
    {next : α → Except Fault (Option Action)} (finishes : Finishes fails gives result)
    (offers : ∀ value, gives value → Offers (next value)) : Offers (result >>= next) :=
  (finishes.imp (fun _ _ => trivial) fun _ => id).bind offers

theorem Finishes.any (result : Except Fault α) : Finishes (fun _ => True) (fun _ => True) result := by
  cases result with
  | error => exact .error trivial
  | ok => exact .ok trivial

/-- A resolver that offers such actions only, for notices that do not stop before they start. -/
def Resolver.Ordered (resolver : Resolver) : Prop :=
  ∀ request : Request, request.range.Ordered → Offers (resolver request)

namespace Fix

variable {request : Request}

theorem edits_ordered (ordered : edit.range.Ordered) : (request.edits title [edit]).Ordered := by
  rintro _ _ ⟨⟩
  exact forall_mem_singleton.mpr ordered

theorem insert_ordered {position : Position} : (request.edits title [.insert position newText]).Ordered :=
  edits_ordered (Position.le_refl position)

theorem command_ordered {kind : CommandKind} {arguments : List Value} :
    (request.command title kind arguments).Ordered := by
  rintro _ _ ⟨⟩

theorem offers_none : Offers (.ok none) := .ok (by simp)

theorem offers_some (ordered : action.Ordered) : Offers (.ok (some action)) := .ok (by rintro _ ⟨⟩; exact ordered)

theorem offers_map {found : Option α} {make : α → Action}
    (ordered : ∀ value, found = some value → (make value).Ordered) : Offers (.ok (found.map make)) := by
  cases found with
  | none => exact offers_none
  | some value => exact offers_some (ordered value rfl)

@[simp]
theorem declareVariable_ordered : Resolver.Ordered declareVariable :=
  fun _ _ => offers_map fun _ _ => insert_ordered

@[simp]
theorem declareGlobalVariable_ordered : Resolver.Ordered declareGlobalVariable :=
  fun _ _ => offers_map fun _ _ => insert_ordered

@[simp]
theorem renameVariable_ordered : Resolver.Ordered renameVariable :=
  fun _ ordered => offers_map fun _ _ => edits_ordered ordered

@[simp]
theorem removeUnusedVariable_ordered : Resolver.Ordered removeUnusedVariable := by
  intro request _
  unfold removeUnusedVariable
  split
  · exact offers_none
  · exact (Range.line_answers _).offers fun _ ordered => offers_some (edits_ordered ordered)

@[simp]
theorem commentOutUnusedVariable_ordered : Resolver.Ordered commentOutUnusedVariable :=
  fun _ _ => offers_map fun _ _ => insert_ordered

@[simp]
theorem declareFunction_ordered : Resolver.Ordered declareFunction :=
  fun _ _ => offers_map fun _ _ => insert_ordered

@[simp]
theorem renameFunction_ordered : Resolver.Ordered renameFunction :=
  fun _ ordered => offers_map fun _ _ => edits_ordered ordered

theorem extent?_ordered {name : String} {extent : Nat × Nat} (found : extent? request name = some extent) :
    (request.document.rangeOf extent.1 extent.2).Ordered := by
  obtain ⟨line, -, rfl⟩ := Option.map_eq_some_iff.mp found
  exact request.document.rangeOf_ordered (Repair.declarationExtent_ordered request.document line)

@[simp]
theorem resizeArray_ordered : Resolver.Ordered resizeArray := by
  intro request _
  unfold resizeArray
  split
  · exact offers_none
  · split
    · exact offers_some command_ordered
    · split
      · exact offers_none
      next found =>
        exact (Finishes.any _).bind fun _ _ => offers_map fun _ _ => edits_ordered (extent?_ordered found)

@[simp]
theorem trimInitializer_ordered : Resolver.Ordered trimInitializer := by
  intro request _
  unfold trimInitializer
  split
  · exact offers_none
  · split
    · exact offers_none
    next found =>
      exact (Finishes.any _).bind fun _ _ => offers_map fun _ _ => edits_ordered (extent?_ordered found)

@[simp]
theorem adjustArgumentsLater_ordered : Resolver.Ordered adjustArgumentsLater :=
  fun _ _ => (Finishes.any _).bind fun _ _ => offers_map fun _ _ => command_ordered

@[simp]
theorem adjustArguments_ordered : Resolver.Ordered adjustArguments := by
  intro request _
  refine (Finishes.any _).bind fun counts _ => ?_
  cases counts with
  | none => exact offers_none
  | some => exact offers_map fun _ made => edits_ordered (Repair.adjustCallEdit_ordered made)

@[simp]
theorem keepCall_ordered : Resolver.Ordered keepCall := by
  intro request _
  unfold keepCall
  dsimp only
  split
  · exact offers_none
  · split
    · exact offers_none
    · split
      · exact offers_none
      · exact (Range.ofInts_answers (by omega)).offers fun _ ordered => offers_some (edits_ordered ordered)

@[simp]
theorem removeJump_ordered : Resolver.Ordered removeJump := by
  intro request ordered
  unfold removeJump
  split
  · exact offers_none
  · dsimp only
    split
    · exact (Range.line_answers _).offers fun _ ordered => offers_some (edits_ordered ordered)
    · exact offers_some (edits_ordered ordered)

@[simp]
theorem addReturnLater_ordered : Resolver.Ordered addReturnLater :=
  fun _ _ => offers_some command_ordered

@[simp]
theorem addReturn_ordered : Resolver.Ordered addReturn :=
  fun _ _ => offers_map fun _ made => edits_ordered (Repair.returnEdit_ordered made)

@[simp]
theorem fillReturn_ordered : Resolver.Ordered fillReturn := by
  intro request _
  unfold fillReturn
  dsimp only
  split
  · exact offers_none
  next found isFirst =>
    have order := Text.start_le_stop (mem_of_head? isFirst)
    exact (Range.ofInts_answers (by omega)).offers fun _ ordered => offers_some (edits_ordered ordered)

@[simp]
theorem dropReturnValue_ordered : Resolver.Ordered dropReturnValue := by
  intro request ordered
  unfold dropReturnValue
  split
  · exact offers_some (edits_ordered ordered)
  · exact offers_none

@[simp]
theorem reshapeInitializer_ordered : Resolver.Ordered reshapeInitializer := by
  intro request ordered
  unfold reshapeInitializer
  dsimp only
  repeat' split
  all_goals first
    | exact offers_none
    | exact offers_some (edits_ordered ordered)

@[simp]
theorem insertSemicolon_ordered : Resolver.Ordered insertSemicolon :=
  fun _ _ => offers_some insert_ordered

@[simp]
theorem insertBracket_ordered : Resolver.Ordered insertBracket := by
  intro request _
  unfold insertBracket
  split
  · exact offers_none
  · exact offers_some insert_ordered
  · exact .error trivial

end Fix

/-! ## Tables -/

namespace FixTable

/-- All resolvers of a list of bindings have a property. -/
def BindsAll (property : Resolver → Prop) (bindings : List FixBinding) : Prop :=
  ∀ binding ∈ bindings, ∀ resolver ∈ binding.primary :: binding.further, property resolver

/-- All resolvers of a table have a property. -/
def Binds (property : Resolver → Prop) (table : FixTable) : Prop :=
  BindsAll property table.byCode ∧ BindsAll property table.byMessage

variable {property : Resolver → Prop} {table : FixTable} {key : String} {primary : Resolver} {further : List Resolver}

theorem BindsAll.put {bindings : List FixBinding} (binds : BindsAll property bindings)
    (all : ∀ resolver ∈ primary :: further, property resolver) :
    BindsAll property (FixBinding.put bindings { key, primary, further }) := by
  induction bindings with
  | nil => exact forall_mem_singleton.mpr all
  | cons old rest ih =>
    obtain ⟨isOld, isRest⟩ := forall_mem_cons.mp binds
    rw [FixBinding.put]
    split
    · exact forall_mem_cons.mpr ⟨by grind, isRest⟩
    · exact forall_mem_cons.mpr ⟨isOld, ih isRest⟩

section

variable (binds : table.Binds property) (all : ∀ resolver ∈ primary :: further, property resolver)
include binds all

theorem Binds.onCode : (table.onCode key primary further).Binds property := ⟨binds.1.put all, binds.2⟩

theorem Binds.onMessage : (table.onMessage key primary further).Binds property := ⟨binds.1, binds.2.put all⟩

end

end FixTable

end SysYTools
