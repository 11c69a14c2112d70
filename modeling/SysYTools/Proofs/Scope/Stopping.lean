import Mathlib
import SysYTools.Scope.Linkage

/-!
Why linking stops: a dimension cannot be read as a number. No other fault comes out of it, since every part of a
program closes as many scopes as it opens.
-/

namespace SysYTools

open List

/-- The faults with which linking can stop. -/
inductive Fault.StopsLinking : Fault → Prop where
  | notInteger : StopsLinking .notInteger
  | tooManyDigits (digits : Nat) : StopsLinking (.tooManyDigits digits)

/-- A computation ends with one of these faults, or with one of these values. -/
inductive Finishes {ε α : Type} (fails : ε → Prop) (gives : α → Prop) : Except ε α → Prop where
  | error {fault : ε} : fails fault → Finishes fails gives (.error fault)
  | ok {value : α} : gives value → Finishes fails gives (.ok value)

namespace Finishes

variable {ε α β : Type} {fails : ε → Prop} {gives : α → Prop} {kind : β → Prop}

theorem bind {result : Except ε α} {next : α → Except ε β} (first : Finishes fails gives result)
    (second : ∀ value, gives value → Finishes fails kind (next value)) : Finishes fails kind (result >>= next) := by
  cases first with
  | error isFault => exact .error isFault
  | ok isValue => exact second _ isValue

theorem foldlM {step : β → α → Except ε β} (each : ∀ state item, kind state → Finishes fails kind (step state item))
    (items : List α) {state : β} (start : kind state) : Finishes fails kind (items.foldlM step state) := by
  induction items generalizing state with
  | nil => exact .ok start
  | cons item _ ih =>
    rw [foldlM_cons]
    exact (each state item start).bind fun _ => ih

theorem mapM {convert : α → Except ε β} {items : List α} (each : ∀ item ∈ items, Finishes fails kind (convert item)) :
    Finishes fails (fun results => ∀ result ∈ results, kind result) (items.mapM convert) := by
  induction items with
  | nil => exact .ok (by simp)
  | cons _ _ ih =>
    obtain ⟨first, others⟩ := forall_mem_cons.mp each
    rw [mapM_cons]
    exact first.bind fun result isKind => (ih others).bind fun results all => .ok (forall_mem_cons.mpr ⟨isKind, all⟩)

theorem imp {result : Except ε α} {fails' : ε → Prop} {gives' : α → Prop} (ends : Finishes fails gives result)
    (faults : ∀ fault, fails fault → fails' fault) (values : ∀ value, gives value → gives' value) :
    Finishes fails' gives' result := by
  cases ends with
  | error isFault => exact .error (faults _ isFault)
  | ok isValue => exact .ok (values _ isValue)

end Finishes

/-! ## Numbers -/

/-- A computation whose only faults are those of numbers. -/
abbrev Counts {α : Type} (result : Except Fault α) : Prop := Finishes Fault.StopsLinking (fun _ => True) result

theorem Radix.readNat_counts (radix : Radix) (text : Text) : Counts (radix.readNat text) := by
  rw [readNat]
  split
  · exact .error .notInteger
  · split
    · exact .error (.tooManyDigits _)
    · exact .ok trivial

theorem Radix.readInt_counts (radix : Radix) (text : Text) : Counts (radix.readInt text) := by
  rw [readInt]
  split <;> exact (readNat_counts radix _).bind fun _ _ => .ok trivial

theorem Declaration.literalDims_counts (dims : List Expr) : Counts (Declaration.literalDims dims) := by
  refine (@Finishes.mapM _ _ _ _ (fun _ => True) _ dims fun dim _ => ?_).imp (fun _ isFault => isFault) fun _ _ => trivial
  split
  next written _ _ =>
    have read : Counts (Literal.intValue written) := by
      rw [Literal.intValue]
      split <;> exact Radix.readInt_counts _ _
    rw [← bind_pure_comp]
    exact read.bind fun _ _ => .ok trivial
  · exact .ok trivial

theorem Declaration.dims_counts (declaration : Declaration) : Counts declaration.dims := by
  cases declaration with
  | «variable» _ var => exact literalDims_counts var.dims
  | parameter param => exact (literalDims_counts param.dims).bind fun _ _ => .ok trivial
  | function => exact .ok trivial

/-! ## Linking -/

namespace Linkage

/-- A linking that stops at one of those faults only, and then has so many scopes inside the global one. -/
abbrev Keeps (depth : Nat) (result : Except LinkStop Linkage) : Prop :=
  Finishes (fun stop => stop.fault.StopsLinking) (fun done => done.table.inner.length = depth) result

variable {depth : Nat} {linkage : Linkage}

theorem define_keeps (declaration : Declaration) (deep : linkage.table.inner.length = depth) :
    Keeps depth (linkage.define declaration) := by
  have dims : Finishes (fun stop : LinkStop => stop.fault.StopsLinking) (fun _ => True)
      (linkage.orStop declaration.dims) := by
    have counts := declaration.dims_counts
    generalize declaration.dims = dims at counts
    cases counts with
    | error isFault => exact .error isFault
    | ok isValue => exact .ok isValue
  refine dims.bind fun dims _ => ?_
  split
  · exact .ok deep
  · refine .ok ?_
    rw [← deep]
    cases inner : linkage.table.inner <;> simp [ScopeTable.define, inner]

theorem leave_keeps (deep : linkage.table.inner.length = depth + 1) : Keeps depth linkage.leave := by
  obtain ⟨_, _, inner⟩ := exists_cons_of_length_eq_add_one deep
  rw [leave, ScopeTable.pop, inner]
  rw [inner] at deep
  exact .ok (Nat.succ.inj deep)

theorem decl_keeps (decl : Decl) (deep : linkage.table.inner.length = depth) : Keeps depth (linkage.decl decl) := by
  refine .foldlM (fun linkage var deep => define_keeps _ ?_) decl.defs deep
  split <;> exact deep

mutual

theorem stmt_keeps {depth : Nat} (linkage : Linkage) (deep : linkage.table.inner.length = depth) :
    (stmt : Stmt) → Keeps depth (linkage.stmt stmt)
  | .block items _ => by
      rw [Linkage.stmt]
      exact (blockItems_keeps _ (by exact congrArg Nat.succ deep) items).bind fun _ => leave_keeps
  | .assign _ _ _ _ _ | .expr (some _) _ | .giveBack (some _) _ | .expr none _ | .giveBack none _
  | .breakLoop _ | .continueLoop _ => by
      rw [Linkage.stmt]
      exact .ok deep
  | .branch _ thenPart none _ => by
      rw [Linkage.stmt]
      exact (stmt_keeps _ (by exact deep) thenPart).bind fun _ deep => .ok deep
  | .branch _ thenPart (some elsePart) _ => by
      rw [Linkage.stmt]
      exact (stmt_keeps _ (by exact deep) thenPart).bind fun linkage deep => stmt_keeps linkage deep elsePart
  | .loop _ body _ => by
      rw [Linkage.stmt]
      exact stmt_keeps _ (by exact deep) body

theorem blockItems_keeps {depth : Nat} (linkage : Linkage) (deep : linkage.table.inner.length = depth) :
    (items : List BlockItem) → Keeps depth (linkage.blockItems items)
  | [] => by
      rw [Linkage.blockItems]
      exact .ok deep
  | first :: rest => by
      rw [Linkage.blockItems]
      exact (blockItem_keeps linkage deep first).bind fun linkage deep => blockItems_keeps linkage deep rest

theorem blockItem_keeps {depth : Nat} (linkage : Linkage) (deep : linkage.table.inner.length = depth) :
    (item : BlockItem) → Keeps depth (linkage.blockItem item)
  | .decl declaration => by
      rw [Linkage.blockItem]
      exact decl_keeps declaration deep
  | .stmt statement => by
      rw [Linkage.blockItem]
      exact stmt_keeps linkage deep statement

end

theorem item_keeps (item : Item) (deep : linkage.table.inner.length = depth) : Keeps depth (linkage.item item) := by
  cases item with
  | decl declaration => exact decl_keeps declaration deep
  | func func =>
    have entered : (linkage.enter func.name).table.inner.length = depth + 1 := congrArg Nat.succ deep
    have params : Keeps (depth + 1) (func.params.foldlM param (linkage.enter func.name)) :=
      .foldlM (fun _ _ deep => define_keeps _ (by exact deep)) func.params entered
    refine params.bind fun linkage deep => ?_
    exact (blockItems_keeps linkage deep func.body).bind fun _ => leave_keeps

end Linkage

theorem CompUnit.link_keeps (unit : CompUnit) : Linkage.Keeps 0 unit.link :=
  (Finishes.foldlM (fun _ => Linkage.define_keeps) _ rfl).bind fun _ => .foldlM (fun _ => Linkage.item_keeps) unit.items

end SysYTools
