import SysYTools.Extract.Function
import SysYTools.Proofs.Position
import SysYTools.Proofs.Scope.Linking
import SysYTools.Proofs.Tree.Nesting

/-!
What becomes of the variables of a function when a part of it is moved into a function of its own. A local of the old
function that the part uses and does not declare becomes a parameter, whether the part reads it or assigns to it.
-/

namespace SysYTools

open List

variable {selection : Selection} {unit : CompUnit}

/-! ## What a selection covers -/

namespace Span

variable {inner outer : Span}

theorem Inside.offsetsOf (inside : inner.Inside outer) (document : Document) (ordered : inner.Ordered)
    (starts : 1 ≤ outer.startLine) :
    (document.offsetsOf outer).1 ≤ (document.offsetsOf inner).1 ∧
      (document.offsetsOf inner).2 ≤ (document.offsetsOf outer).2 := by
  simp only [Inside, Ordered, first, last, Prod.Lex.toLex_le_toLex] at inside ordered
  constructor <;> apply Document.offsetAt_mono <;>
    simp only [Position.le, Bool.or_eq_true, Bool.and_eq_true, decide_eq_true_eq, beq_iff_eq] <;> omega

end Span

theorem Selection.covers_of_inside {inner outer : Span} (inside : inner.Inside outer)
    (ordered : inner.Ordered) (starts : 1 ≤ outer.startLine) (covered : selection.covers outer = true) :
    selection.covers inner = true := by
  obtain ⟨_, _⟩ := inside.offsetsOf selection.document ordered starts
  simp only [covers, Bool.and_eq_true, decide_eq_true_eq] at covered ⊢
  omega

theorem CompUnit.covers_child {file : String} {text : Text}
    {node child : Node} (parsed : CompUnit.ofText file text = .ok unit) (member : node ∈ (Node.unit unit).walk)
    (isChild : child ∈ node.children) (covered : selection.covers node.span = true) :
    selection.covers child.span = true := by
  obtain ⟨_, source⟩ := CompUnit.exists_source parsed
  have laid := source.laid.of_mem_walk member
  have starts : 1 ≤ node.span.startLine := by
    have inside := (source.laid.inside_of_mem_walk member).1
    rw [show (Node.unit unit).span = unit.span from rfl, source.span, Span.first, Span.first,
      Prod.Lex.toLex_le_toLex] at inside
    dsimp only at inside
    omega
  exact Selection.covers_of_inside (laid.fits.inside child isChild) (laid.child isChild).fits.ordered starts covered

namespace Extract

variable {selection : Selection} {linkage : Linkage} {func : FuncDef} {found : List Declaration}
  {use : Reference × Span}

/-! ## Parameters -/

/-- A use in the selection means a local of the function that the selection does not declare. -/
structure Needs (selection : Selection) (linkage : Linkage) (func : FuncDef) (use : Reference × Span)
    (target : Declaration) : Prop where
  bound : linkage.target? use.1 = some target
  covered : selection.covers use.2 = true
  isLocal : target.nameSpan ∈ localPlaces func
  outside : target.nameSpan ∉ declaredPlaces selection func

def collect (selection : Selection) (linkage : Linkage) (func : FuncDef) (found : List Declaration)
    (use : Reference × Span) : List Declaration :=
  match linkage.target? use.1 with
  | none => found
  | some target =>
    if selection.covers use.2 && (localPlaces func).contains target.nameSpan &&
        !(declaredPlaces selection func).contains target.nameSpan && !found.any (·.nameSpan == target.nameSpan) then
      found ++ [target]
    else found

theorem captured_eq (selection : Selection) (linkage : Linkage) (func : FuncDef) :
    captured selection linkage func = (variableUses func).foldl (collect selection linkage func) [] := rfl

theorem collect_cases (selection : Selection) (linkage : Linkage) (func : FuncDef) (found : List Declaration)
    (use : Reference × Span) :
    (collect selection linkage func found use = found ∧
      ∀ target, Needs selection linkage func use target → target.nameSpan ∈ found.map (·.nameSpan)) ∨
    ∃ target, Needs selection linkage func use target ∧ target.nameSpan ∉ found.map (·.nameSpan) ∧
      collect selection linkage func found use = found ++ [target] := by
  rw [collect]
  cases bound : linkage.target? use.1 with
  | none => exact .inl ⟨rfl, fun target needs => nomatch bound.symm.trans needs.bound⟩
  | some target =>
    have needed : (selection.covers use.2 && (localPlaces func).contains target.nameSpan &&
        !(declaredPlaces selection func).contains target.nameSpan && !found.any (·.nameSpan == target.nameSpan)) = true ↔
        Needs selection linkage func use target ∧ target.nameSpan ∉ found.map (·.nameSpan) := by
      have needs : Needs selection linkage func use target ↔ selection.covers use.2 = true ∧
          target.nameSpan ∈ localPlaces func ∧ target.nameSpan ∉ declaredPlaces selection func :=
        ⟨fun needs => ⟨needs.covered, needs.isLocal, needs.outside⟩,
          fun ⟨covered, isLocal, outside⟩ => ⟨bound, covered, isLocal, outside⟩⟩
      simp [needs, and_assoc]
    dsimp only
    split
    next holds => exact .inr ⟨target, (needed.mp holds).1, (needed.mp holds).2, rfl⟩
    next fails =>
      refine .inl ⟨rfl, fun other needs => ?_⟩
      obtain rfl : target = other := Option.some.inj (bound.symm.trans needs.bound)
      by_contra fresh
      exact fails (needed.mpr ⟨needs, fresh⟩)

theorem foldl_collect (uses : List (Reference × Span)) (nodup : (found.map (·.nameSpan)).Nodup) :
    ((uses.foldl (collect selection linkage func) found).map (·.nameSpan)).Nodup ∧
    ∀ place, place ∈ (uses.foldl (collect selection linkage func) found).map (·.nameSpan) ↔
      place ∈ found.map (·.nameSpan) ∨
        ∃ use ∈ uses, ∃ target, Needs selection linkage func use target ∧ target.nameSpan = place := by
  induction uses generalizing found with
  | nil => simpa using nodup
  | cons use _ ih =>
    rw [foldl_cons]
    rcases collect_cases selection linkage func found use with ⟨same, known⟩ | ⟨target, needs, fresh, more⟩
    · rw [same]
      refine ⟨(ih nodup).1, fun place => ((ih nodup).2 place).trans ?_⟩
      simp only [mem_cons, exists_eq_or_imp]
      refine ⟨Or.imp_right .inr, ?_⟩
      rintro (old | ⟨target, needs, rfl⟩ | later)
      · exact .inl old
      · exact .inl (known target needs)
      · exact .inr later
    · have nodup' : ((found ++ [target]).map (·.nameSpan)).Nodup := by
        rw [map_append]
        exact nodup_append_comm.mp (nodup_cons.mpr ⟨fresh, nodup⟩)
      rw [more]
      refine ⟨(ih nodup').1, fun place => ((ih nodup').2 place).trans ?_⟩
      have own : (∃ other, Needs selection linkage func use other ∧ other.nameSpan = place) ↔
          place = target.nameSpan := by
        refine ⟨?_, fun here => ⟨target, needs, here.symm⟩⟩
        rintro ⟨_, needs', rfl⟩
        rw [Option.some.inj (needs.bound.symm.trans needs'.bound)]
      rw [map_append, mem_append, map_singleton, mem_singleton, exists_mem_cons_iff, own, or_assoc]

theorem captured_spec (selection : Selection) (linkage : Linkage) (func : FuncDef) :
    ((captured selection linkage func).map (·.nameSpan)).Nodup ∧
    ∀ place, place ∈ (captured selection linkage func).map (·.nameSpan) ↔
      ∃ use ∈ variableUses func, ∃ target, Needs selection linkage func use target ∧ target.nameSpan = place := by
  obtain ⟨nodup, members⟩ := foldl_collect (variableUses func) (show (([] : List Declaration).map _).Nodup by simp)
  rw [captured_eq]
  exact ⟨nodup, fun place => (members place).trans (by simp)⟩

/-- A variable or a parameter that is no array. -/
def isScalar : Declaration → Bool
  | .variable _ var => !var.isArray
  | .parameter param => !param.isArray
  | .function _ => true

theorem parameterText_eq_iff (document : Document) (declaration : Declaration) :
    parameterText document declaration = s!"{declaration.typeName} {declaration.name}".toList ↔
      isScalar declaration = true := by
  cases declaration with
  | function => simp [parameterText, isScalar]
  | «variable» decl var => cases array : var.isArray <;> simp [parameterText, isScalar, array]
  | parameter param => cases array : param.isArray <;> simp [parameterText, isScalar, array]

/-! ## Assignments -/

theorem mem_variableUses_of_assign {reference : Reference} {indices : List Expr} {targetSpan span : Span}
    {value : Expr} (member : .stmt (.assign reference indices targetSpan value span) ∈ (Node.stmt func.block).walk) :
    (reference, targetSpan) ∈ variableUses func :=
  mem_filterMap.mpr ⟨.expr (.lval reference indices targetSpan),
    Node.mem_walk_trans member (Node.mem_walk_of_child mem_cons_self (Node.self_mem_walk _)), rfl⟩

theorem function_eq_ok {document : Document} {range : Range} {base : Value} {edits : List Edit}
    (extracted : function document range base = .ok edits) (changes : edits ≠ []) :
    ∃ selection unit linkage func part name, Selection.ofRange? document range = some selection ∧
      CompUnit.ofText document.uri document.text = .ok unit ∧ unit.link = .ok linkage ∧ func ∈ unit.functions ∧
      selection.isWithin func.span = true ∧ selection.part? func = some part ∧ escapes selection linkage func = false ∧
      functionName base (linkage.table.global.entries.map (·.name)) = .ok name ∧
      edits = Extract.edits selection linkage func part name := by
  have none : ∀ {edits : List Edit}, (Except.ok [] : Except Fault (List Edit)) = .ok edits → edits ≠ [] → False := by
    rintro _ ⟨⟩ changes
    exact changes rfl
  rw [function] at extracted
  split at extracted
  next selection unit selected parsed =>
    cases linked : unit.link with
    | error => simp [linked, Except.mapError, bind, Except.bind] at extracted
    | ok linkage =>
      simp only [linked, Except.mapError, bind, Except.bind] at extracted
      split at extracted
      · exact (none extracted changes).elim
      next func isFunc =>
        split at extracted
        · exact (none extracted changes).elim
        next part isPart =>
          split at extracted
          · exact (none extracted changes).elim
          next stays =>
            cases named : functionName base (linkage.table.global.entries.map (·.name)) with
            | error => simp [named] at extracted
            | ok name =>
              simp only [named] at extracted
              cases extracted
              have within : selection.isWithin func.span = true := by simpa using find?_some isFunc
              exact ⟨selection, unit, linkage, func, part, name, selected, parsed, linked,
                mem_of_find?_eq_some isFunc, within, isPart, Bool.eq_false_iff.mpr stays, named, rfl⟩
  · exact (none extracted changes).elim

/-- An extraction that changes the text makes parameters of the locals that the moved part uses and does not declare,
each one once. So a variable that the part assigns to is declared by the part and used nowhere else; or it is a
parameter of the new function, which takes its value if it is no array; or it is no local and no parameter. -/
theorem function_passes_assigned {document : Document} {range : Range} {base : Value} {edits : List Edit}
    (extracted : function document range base = .ok edits) (changes : edits ≠ []) :
    ∃ selection unit linkage func part name, Selection.ofRange? document range = some selection ∧
      CompUnit.ofText document.uri document.text = .ok unit ∧ unit.link = .ok linkage ∧ func ∈ unit.functions ∧
      selection.isWithin func.span = true ∧ selection.part? func = some part ∧
      edits = Extract.edits selection linkage func part name ∧
      ((captured selection linkage func).map (·.nameSpan)).Nodup ∧
      (∀ passed ∈ captured selection linkage func,
        parameterText document passed = s!"{passed.typeName} {passed.name}".toList ↔ isScalar passed = true) ∧
      ∀ reference indices targetSpan value span,
        .stmt (.assign reference indices targetSpan value span) ∈ (Node.stmt func.block).walk →
        selection.covers span = true → ∀ target, linkage.target? reference = some target →
          if target.nameSpan ∈ declaredPlaces selection func then
            ∀ use ∈ variableUses func, ∀ other, linkage.target? use.1 = some other →
              other.nameSpan = target.nameSpan → selection.covers use.2 = true
          else target.nameSpan ∈ (captured selection linkage func).map (·.nameSpan) ↔
              target.nameSpan ∈ localPlaces func := by
  obtain ⟨selection, unit, linkage, func, part, name, selected, parsed, linked, isFunc, within, isPart, stays, -, rfl⟩ :=
    function_eq_ok extracted changes
  obtain ⟨nodup, members⟩ := captured_spec selection linkage func
  refine ⟨selection, unit, linkage, func, part, name, selected, parsed, linked, isFunc, within, isPart, rfl, nodup,
    fun passed _ => parameterText_eq_iff document passed, ?_⟩
  intro reference indices targetSpan value span isAssign covered target bound
  have isUse := mem_variableUses_of_assign isAssign
  have coveredTarget : selection.covers targetSpan = true := by
    have isItem : Node.func func ∈ (Node.unit unit).children := by
      obtain ⟨item, isItem, same⟩ := mem_filterMap.mp isFunc
      cases item <;> cases same
      exact mem_map_of_mem isItem
    have inUnit := Node.mem_walk_of_child isItem (Node.mem_walk_of_child
      (mem_append_right _ (mem_singleton_self (Node.stmt func.block))) isAssign)
    exact CompUnit.covers_child parsed inUnit mem_cons_self covered
  split
  next declared =>
    intro use isUse other bound same
    by_contra uncovered
    have escaping : escapes selection linkage func = true := by
      refine any_eq_true.mpr ⟨use, isUse, ?_⟩
      simpa [bound, same, Bool.eq_false_iff.mpr uncovered] using declared
    exact Bool.false_ne_true (stays.symm.trans escaping)
  next outside =>
    rw [members]
    constructor
    · rintro ⟨_, _, _, needs, same⟩
      exact same ▸ needs.isLocal
    · intro isLocal
      exact ⟨_, isUse, target, ⟨bound, coveredTarget, isLocal, outside⟩, rfl⟩

/-- A selected assignment changes a parameter of the new function, and not the variable that is read after the call. -/
theorem function_passes_assigned_value :
    ∃ edits, function ⟨"t.sy", "int f(int a)\x7ba=2;return a;\x7d".toList⟩ ⟨⟨0, 13⟩, ⟨0, 17⟩⟩ (.text "g") = .ok edits ∧
      edits.map (·.newText) = ["void g(int a) \x7b\n    a=2;\n\x7d\n\n".toList, "g(a);".toList] ∧
      ∃ selection linkage func part name, edits = Extract.edits selection linkage func part name ∧
        ((captured selection linkage func).map (·.nameSpan)).Nodup := by
  obtain ⟨edits, extracted, texts⟩ := Except.exists_of_toOption
    (show (function ⟨"t.sy", "int f(int a)\x7ba=2;return a;\x7d".toList⟩ ⟨⟨0, 13⟩, ⟨0, 17⟩⟩
        (.text "g")).toOption.map (·.map (·.newText)) =
      some ["void g(int a) \x7b\n    a=2;\n\x7d\n\n".toList, "g(a);".toList] by
      rw [String.toList_ofList, String.toList_ofList, String.toList_ofList]
      decide +kernel)
  have changes : edits ≠ [] := by
    rintro rfl
    cases texts
  obtain ⟨selection, _, linkage, func, part, name, -, -, -, -, -, -, isEdits, nodup, -⟩ :=
    function_passes_assigned extracted changes
  exact ⟨edits, extracted, texts, selection, linkage, func, part, name, isEdits, nodup⟩

/-! ## The name of the new function -/

/-- Numbered names are different from each other, so the search ends at the first one that is not taken. -/
theorem freshName_of_mem {base : String} {taken : List String} (member : base ∈ taken) :
    ∃ number ≥ 1, freshName base taken = base ++ toString number ∧ base ++ toString number ∉ taken ∧
      ∀ smaller ≥ 1, smaller < number → base ++ toString smaller ∈ taken := by
  let candidate (number : Nat) : String := base ++ toString (number + 1)
  have distinct : ((List.range (taken.length + 1)).map candidate).Nodup := by
    refine nodup_range.map fun first second same => ?_
    exact Nat.succ.inj (Nat.repr_inj.mp ((String.append_right_inj base).mp same))
  obtain ⟨number, found⟩ : ∃ number,
      (List.range (taken.length + 1)).find? (fun number => !taken.contains (candidate number)) = some number := by
    rw [← Option.isSome_iff_exists, find?_isSome]
    by_contra all
    have within : (List.range (taken.length + 1)).map candidate ⊆ taken := by
      intro name isCandidate
      obtain ⟨number, inRange, rfl⟩ := mem_map.mp isCandidate
      by_contra free
      exact all ⟨number, inRange, by simpa using free⟩
    simpa using (distinct.subperm within).length_le
  obtain ⟨free, -, before⟩ := find?_range_eq_some.mp found
  refine ⟨number + 1, by omega, ?_, by simpa [candidate] using free, fun smaller positive below => ?_⟩
  · rw [freshName, if_pos (contains_iff_mem.mpr member), List.find?_map]
    exact congrArg (fun found => (Option.map candidate found).getD base) found
  · obtain ⟨smaller, rfl⟩ := Nat.exists_eq_add_of_le' positive
    simpa [candidate] using before smaller (by omega)

theorem mem_global_iff {linkage : Linkage} (aligned : unit.Aligned)
    (linked : unit.link = .ok linkage) (name : String) :
    name ∈ linkage.table.global.entries.map (·.name) ↔ ∃ declaration ∈ unit.globalScope, declaration.name = name := by
  have run := CompUnit.link_links aligned
  rw [linked] at run
  have missing := @Scope.Holds.find?_eq_none _ _ (@SymbolTable.Shows.global _ [] _ run.2.1) name
  rw [Scope.find?, List.find?_eq_none, List.find?_eq_none] at missing
  rw [← not_iff_not]
  simpa using missing

/-- A new name is the base if that is not taken, and else the base with the least number that makes it a name which is
not taken. A new function has such a name, where all names of the global scope are taken. -/
theorem function_has_fresh_name :
    (∀ (base : String) (taken : List String),
      if base ∈ taken then
        ∃ number ≥ 1, freshName base taken = base ++ toString number ∧ base ++ toString number ∉ taken ∧
          ∀ smaller ≥ 1, smaller < number → base ++ toString smaller ∈ taken else freshName base taken = base) ∧
    ∀ (document : Document) (range : Range) (base : String) (edits : List Edit) (unit : CompUnit),
      function document range (.text base) = .ok edits → edits ≠ [] →
      CompUnit.ofText document.uri document.text = .ok unit →
      ∃ taken typeName params body call,
        (∀ name, name ∈ taken ↔ ∃ declaration ∈ unit.globalScope, declaration.name = name) ∧
        edits.map (·.newText) = [functionText typeName (freshName base taken) params body, call] ∧
        freshName base taken ∉ taken := by
  refine ⟨fun base taken => ?_, fun document range base edits unit extracted changes parsed => ?_⟩
  · split
    next member => exact freshName_of_mem member
    next free => rw [freshName, if_neg (by simpa using free)]
  · obtain ⟨_, _, linkage, _, part, _, -, parsed', linked, -, -, -, -, named, rfl⟩ := function_eq_ok extracted changes
    obtain rfl := Except.ok.inj (parsed.symm.trans parsed')
    obtain rfl := Except.ok.inj named
    have free : freshName base (linkage.table.global.entries.map (·.name)) ∉
        linkage.table.global.entries.map (·.name) := by
      by_cases member : base ∈ linkage.table.global.entries.map (·.name)
      · obtain ⟨_, -, named, free, -⟩ := freshName_of_mem member
        rwa [named]
      · rwa [freshName, if_neg (by simpa using member)]
    have global := mem_global_iff (CompUnit.aligned_of_ofText parsed) linked
    cases part with
    | statements | expression => exact ⟨_, _, _, _, _, global, rfl, free⟩

/-- A part of the function `g` moves into a function `g2`, since there is a variable `g1`. -/
theorem function_has_fresh_name_numbered :
    ∃ edits unit, function ⟨"t.sy", "int g1;int g(int a)\x7breturn a+1;\x7d".toList⟩ ⟨⟨0, 27⟩, ⟨0, 30⟩⟩ (.text "g") =
        .ok edits ∧ edits ≠ [] ∧ CompUnit.ofText "t.sy" "int g1;int g(int a)\x7breturn a+1;\x7d".toList = .ok unit ∧
      edits.map (·.newText) = ["int g2(int a) \x7b\n    return a+1;\n\x7d\n\n".toList, "g2(a)".toList] ∧
      ∃ taken, (∀ name, name ∈ taken ↔ ∃ declaration ∈ unit.globalScope, declaration.name = name) ∧
        freshName "g" taken ∉ taken := by
  obtain ⟨edits, extracted, texts⟩ := Except.exists_of_toOption
    (show (function ⟨"t.sy", "int g1;int g(int a)\x7breturn a+1;\x7d".toList⟩ ⟨⟨0, 27⟩, ⟨0, 30⟩⟩
        (.text "g")).toOption.map (·.map (·.newText)) =
      some ["int g2(int a) \x7b\n    return a+1;\n\x7d\n\n".toList, "g2(a)".toList] by
      rw [String.toList_ofList, String.toList_ofList, String.toList_ofList]
      decide +kernel)
  have changes : edits ≠ [] := by
    rintro rfl
    cases texts
  obtain ⟨_, unit, _, _, _, _, -, parsed, -⟩ := function_eq_ok extracted changes
  obtain ⟨taken, _, _, _, _, global, -, free⟩ := function_has_fresh_name.2 _ _ _ edits unit extracted changes parsed
  exact ⟨edits, unit, extracted, changes, parsed, texts, taken, global, free⟩

end Extract

end SysYTools
