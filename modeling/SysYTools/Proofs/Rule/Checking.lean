import SysYTools.Proofs.Rule.Breach
import SysYTools.Proofs.Scope.Resolution

/-!
The checker finds each breach of the static rules once. It looks for repeated names at the declaration, for
repeated functions at the program and for stray jumps at the function, while a breach belongs to the part at
fault; so the reports are the breaches in another order.
-/

namespace SysYTools

open List

variable {child node : Node} {decl : Decl} {linkage : Linkage}

namespace Node

/-! ## Reports below a node -/

/-- What is reported at a node and at all parts below it. -/
def collect (look : Site → List Report) (ancestors : List Node) (node : Node) : List Report :=
  (node.sitesUnder ancestors).flatMap look

theorem collect_eq (look : Site → List Report) (ancestors : List Node) (node : Node) :
    node.collect look ancestors =
      look ⟨node, ancestors⟩ ++ node.children.flatMap (collect look (node :: ancestors)) := by
  rw [collect, sitesUnder_eq, flatMap_cons, flatMap_assoc]
  rfl

/-- Programs hold functions, functions hold statements, and so on down to expressions. -/
def rank : Node → Nat
  | .unit _ => 5
  | .func _ => 4
  | .stmt _ => 3
  | .decl _ => 2
  | .varDef _ | .param _ => 1
  | .initList _ _ | .expr _ => 0

theorem rank_of_mem_children (below : child ∈ node.children) :
    child.rank < node.rank ∨ child.rank = node.rank ∧ (node.rank = 0 ∨ node.rank = 3) := by
  cases node with
  | unit =>
    obtain ⟨item, -, rfl⟩ := mem_map.mp below
    cases item <;> simp [Item.node, rank]
  | decl =>
    obtain ⟨_, -, rfl⟩ := mem_map.mp below
    simp [rank]
  | varDef =>
    rcases mem_append.mp below with isDim | isInit
    · obtain ⟨dim, -, rfl⟩ := mem_map.mp isDim
      simp [rank]
    · obtain ⟨init, -, rfl⟩ := Option.map_eq_some_iff.mp (Option.mem_toList.mp isInit)
      cases init <;> simp [InitVal.node, rank]
  | initList =>
    obtain ⟨init, -, rfl⟩ := mem_map.mp below
    cases init <;> simp [InitVal.node, rank]
  | func =>
    rcases mem_append.mp below with isParam | isBody
    · obtain ⟨param, -, rfl⟩ := mem_map.mp isParam
      simp [rank]
    · rw [mem_singleton.mp isBody]
      simp [rank]
  | param =>
    obtain ⟨_, -, rfl⟩ := mem_map.mp below
    simp [rank]
  | stmt statement =>
    cases statement with
    | block =>
      obtain ⟨item, -, rfl⟩ := mem_map.mp below
      cases item <;> simp [BlockItem.node, rank]
    | breakLoop | continueLoop => cases below
    | _ =>
      simp only [children, Option.mem_toList, Option.map_eq_some_iff, mem_cons, not_mem_nil, or_false] at below
      grind [rank]
  | expr =>
    obtain ⟨_, rfl⟩ := expr_of_mem_children below
    simp [rank]

theorem rank_lt_of_mem_children (below : child ∈ node.children) (strict : node.rank ≠ 0 ∧ node.rank ≠ 3) :
    child.rank < node.rank := by
  rcases rank_of_mem_children below with less | ⟨-, loose⟩
  · exact less
  · exact absurd loose (not_or.mpr strict)

/-- Reports are made at nodes of one rank only. -/
def OnlyAt (rank : Nat) (look : Site → List Report) : Prop := ∀ site : Site, site.node.rank ≠ rank → look site = []

theorem OnlyAt.collect_eq_nil {look : Site → List Report} {rank : Nat} (only : OnlyAt rank look)
    (low : node.rank < rank) (ancestors : List Node) : node.collect look ancestors = [] := by
  induction node using induction_children generalizing ancestors with
  | step node ih =>
    rw [collect_eq, only ⟨node, ancestors⟩ low.ne, nil_append, flatMap_eq_nil_iff]
    intro child below
    rcases rank_of_mem_children below with less | ⟨same, -⟩
    · exact ih child below (less.trans low) _
    · exact ih child below (same ▸ low) _

theorem OnlyAt.collect_eq_own {look : Site → List Report} {rank : Nat} (only : OnlyAt rank look)
    (strict : node.rank ≠ 0 ∧ node.rank ≠ 3) (low : node.rank ≤ rank) (ancestors : List Node) :
    node.collect look ancestors = look ⟨node, ancestors⟩ := by
  have none : node.children.flatMap (collect look (node :: ancestors)) = [] :=
    flatMap_eq_nil_iff.mpr fun child below =>
      only.collect_eq_nil ((rank_lt_of_mem_children below strict).trans_le low) _
  rw [collect_eq, none, append_nil]

end Node

/-! ## Repeated names -/

private theorem repeated_go_eq {α : Type} {key : α → String} {place : α → Span} {before rest : List α}
    {seen : List String} (sorted : (before ++ rest).Pairwise fun left right => (place left).Before (place right))
    (ordered : ∀ item ∈ before ++ rest, (place item).Ordered)
    (known : ∀ name, name ∈ seen ↔ ∃ item ∈ before, key item = name) :
    Violations.repeated.go key seen rest = rest.filter fun item =>
      ∃ earlier ∈ before ++ rest, key earlier = key item ∧ (place earlier).Before (place item) := by
  induction rest generalizing before seen with
  | nil => rfl
  | cons item rest ih =>
    obtain ⟨-, sortedRest, ahead⟩ := pairwise_append.mp sorted
    have itemOrdered := ordered item (by simp)
    have first : (∃ earlier ∈ before ++ item :: rest, key earlier = key item ∧
        (place earlier).Before (place item)) ↔ key item ∈ seen := by
      rw [known]
      constructor
      · rintro ⟨earlier, member, same, order⟩
        rcases mem_append.mp member with isBefore | isRest
        · exact ⟨earlier, isBefore, same⟩
        · rcases mem_cons.mp isRest with rfl | isLater
          · exact absurd order itemOrdered.not_before
          · have later := (pairwise_cons.mp sortedRest).1 earlier isLater
            exact absurd (later.trans (ordered earlier member) order) itemOrdered.not_before
      · rintro ⟨earlier, isBefore, same⟩
        exact ⟨earlier, mem_append_left _ isBefore, same, ahead earlier isBefore item mem_cons_self⟩
    have shift : before ++ item :: rest = (before ++ [item]) ++ rest := by simp
    rw [Violations.repeated.go, filter_cons]
    rw [shift] at sorted ordered first ⊢
    by_cases isKnown : key item ∈ seen
    · have knownNext : ∀ name, name ∈ seen ↔ ∃ other ∈ before ++ [item], key other = name := by
        intro name
        rw [known]
        grind
      rw [if_pos (by simpa using isKnown), if_pos (decide_eq_true (first.mpr isKnown)), ih sorted ordered knownNext]
    · have knownNext : ∀ name, name ∈ key item :: seen ↔
          ∃ other ∈ before ++ [item], key other = name := by
        intro name
        rw [mem_cons, known]
        grind
      rw [if_neg (by simpa using isKnown), if_neg (by simpa using mt first.mp isKnown), ih sorted ordered knownNext]

private theorem map_filter_eq_flatMap {α β : Type} (keeps : α → Prop) [DecidablePred keeps]
    (report : α → β) (items : List α) :
    (items.filter fun item => keeps item).map report =
      items.flatMap fun item => if keeps item then [report item] else [] := by
  induction items with
  | nil => rfl
  | cons item _ ih =>
    rw [filter_cons, flatMap_cons, ← ih]
    by_cases kept : keeps item <;> simp [kept]

theorem map_repeated_eq {α : Type} {key : α → String} {place : α → Span} {items : List α}
    (sorted : items.Pairwise fun left right => (place left).Before (place right))
    (ordered : ∀ item ∈ items, (place item).Ordered) (report : α → Report) :
    (Violations.repeated key items).map report = items.flatMap fun item =>
      if ∃ earlier ∈ items, key earlier = key item ∧ (place earlier).Before (place item) then
        [report item] else [] := by
  rw [Violations.repeated, @repeated_go_eq α key place [] items [] sorted ordered (by simp)]
  exact map_filter_eq_flatMap ..

/-! ## Where the checker looks -/

namespace Checking

def namesAt (site : Node.Site) : List Report :=
  match site.node with
  | .decl decl => Violations.uniqueNames decl
  | _ => []

def functionsAt (site : Node.Site) : List Report :=
  match site.node with
  | .unit unit => Violations.uniqueFunctions unit
  | _ => []

def jumpsAt (site : Node.Site) : List Report :=
  match site.node with
  | .func func => Violations.jumpsInLoops func
  | _ => []

variable {unit : CompUnit} {ancestors : List Node}

private theorem namesAt_only : Node.OnlyAt 2 namesAt := by
  rintro ⟨node, _⟩ other
  cases node with
  | decl => exact absurd rfl other
  | _ => rfl

private theorem repeatedName_only : Node.OnlyAt 1 Breach.repeatedName := by
  rintro ⟨node, _⟩ other
  cases node with
  | varDef => exact absurd rfl other
  | _ => rfl

private theorem functionsAt_only : Node.OnlyAt 5 functionsAt := by
  rintro ⟨node, _⟩ other
  cases node with
  | unit => exact absurd rfl other
  | _ => rfl

private theorem repeatedFunction_only : Node.OnlyAt 4 (Breach.repeatedFunction unit) := by
  rintro ⟨node, _⟩ other
  cases node with
  | func => exact absurd rfl other
  | _ => rfl

private theorem jumpsAt_only : Node.OnlyAt 4 jumpsAt := by
  rintro ⟨node, _⟩ other
  cases node with
  | func => exact absurd rfl other
  | _ => rfl

private theorem strayJumps_only : Node.OnlyAt 3 Breach.strayJumps := by
  rintro ⟨node, _⟩ other
  cases node with
  | stmt => exact absurd rfl other
  | _ => rfl

/-! ### Repeated names -/

private theorem names_sorted (laid : (Node.decl decl).Laid) :
    decl.defs.Pairwise (fun left right => left.nameSpan.Before right.nameSpan) ∧
      ∀ var ∈ decl.defs, var.nameSpan.Ordered := by
  have word : ∀ var ∈ decl.defs, var.nameSpan.Ordered ∧ var.nameSpan.Inside var.span := by
    intro var member
    have laidDef : (Node.varDef var).Laid := laid.child (mem_map_of_mem member)
    obtain ⟨ordered, inside, -⟩ := laidDef.fits.word var.nameSpan (by simp [Node.words])
    exact ⟨ordered, inside⟩
  refine ⟨?_, fun var member => (word var member).1⟩
  refine (pairwise_map.mp laid.fits.sorted).imp_of_mem fun {left right} isLeft isRight order => ?_
  exact (order.of_inside_left (word left isLeft).2).of_inside_right (word right isRight).2

theorem uniqueNames_eq (laid : (Node.decl decl).Laid) :
    Violations.uniqueNames decl =
      decl.defs.flatMap fun var => Breach.repeatedName ⟨.varDef var, .decl decl :: ancestors⟩ := by
  obtain ⟨sorted, ordered⟩ := names_sorted laid
  exact map_repeated_eq sorted ordered _

theorem collect_names (laid : node.Laid) (outside : ∀ decl outer, ancestors ≠ .decl decl :: outer) :
    node.collect namesAt ancestors = node.collect Breach.repeatedName ancestors := by
  induction laid generalizing ancestors with
  | @mk node fits children ih =>
    cases node with
    | decl decl =>
      have own : (Node.decl decl).children.flatMap
          (Node.collect Breach.repeatedName (.decl decl :: ancestors)) =
          decl.defs.flatMap fun var =>
            Breach.repeatedName ⟨.varDef var, .decl decl :: ancestors⟩ := by
        rw [Node.children, flatMap_map]
        exact flatMap_congr fun var _ => repeatedName_only.collect_eq_own (by simp [Node.rank]) (by simp [Node.rank]) _
      rw [namesAt_only.collect_eq_own (by simp [Node.rank]) (by simp [Node.rank]), Node.collect_eq, own]
      exact uniqueNames_eq (.mk fits children)
    | varDef var =>
      have own : Breach.repeatedName ⟨.varDef var, ancestors⟩ = [] := by
        cases ancestors with
        | nil => rfl
        | cons parent outer =>
          cases parent with
          | decl decl => exact absurd rfl (outside decl outer)
          | _ => rfl
      rw [Node.collect_eq, Node.collect_eq, own]
      exact congrArg₂ _ rfl (flatMap_congr fun child below => ih child below (by simp))
    | _ =>
      rw [Node.collect_eq, Node.collect_eq]
      exact congrArg₂ _ rfl (flatMap_congr fun child below => ih child below (by simp))

/-! ### Jumps -/

private theorem strayJumpsOfAll_eq (inLoop : Bool) (items : List BlockItem) :
    Violations.strayJumpsOfAll inLoop items = items.flatMap (Violations.strayJumpsOfItem inLoop) := by
  induction items with
  | nil => rfl
  | cons _ _ ih => rw [Violations.strayJumpsOfAll, ih, flatMap_cons]

theorem collect_jumps_stmt (stmt : Stmt) :
    (Node.stmt stmt).collect Breach.strayJumps ancestors =
      Violations.strayJumps (ancestors.any Breach.isLoop) stmt := by
  generalize shape : Node.stmt stmt = node
  induction node using Node.induction_children generalizing stmt ancestors with
  | step _ ih =>
    subst shape
    have expr : ∀ expr ancestors, (Node.expr expr).collect Breach.strayJumps ancestors = [] :=
      fun expr => strayJumps_only.collect_eq_nil (by simp [Node.rank])
    have below : ∀ inner, Node.stmt inner ∈ (Node.stmt stmt).children →
        (Node.stmt inner).collect Breach.strayJumps (.stmt stmt :: ancestors) =
          Violations.strayJumps ((Node.stmt stmt :: ancestors).any Breach.isLoop) inner :=
      fun inner member => ih _ member inner rfl
    rw [Node.collect_eq]
    cases stmt with
    | block =>
      rw [Violations.strayJumps, strayJumpsOfAll_eq, Node.children, flatMap_map]
      refine flatMap_congr fun item member => ?_
      cases item with
      | decl => exact strayJumps_only.collect_eq_nil (by simp [BlockItem.node, Node.rank]) _
      | stmt inner => exact below inner (mem_map_of_mem member)
    | assign => simp [Node.children, expr, Breach.strayJumps, Violations.strayJumps]
    | expr value =>
      cases value <;> simp [Node.children, expr, Breach.strayJumps, Violations.strayJumps]
    | giveBack value =>
      cases value <;> simp [Node.children, expr, Breach.strayJumps, Violations.strayJumps]
    | branch _ thenPart elsePart =>
      have first := below thenPart (by simp [Node.children])
      cases elsePart with
      | none => simp [Node.children, expr, first, Breach.strayJumps, Violations.strayJumps, Breach.isLoop]
      | some elsePart =>
        have second := below elsePart (by simp [Node.children])
        simp [Node.children, expr, first, second, Breach.strayJumps, Violations.strayJumps, Breach.isLoop]
    | loop _ body =>
      have inner := below body (by simp [Node.children])
      simp [Node.children, expr, inner, Breach.strayJumps, Violations.strayJumps, Breach.isLoop]
    | breakLoop | continueLoop =>
      simp only [Breach.strayJumps, Node.children, flatMap_nil, append_nil]
      cases ancestors.any Breach.isLoop <;> rfl

theorem collect_jumps {item : Item} :
    item.node.collect jumpsAt [.unit unit] = item.node.collect Breach.strayJumps [.unit unit] := by
  cases item with
  | decl =>
    rw [jumpsAt_only.collect_eq_nil (by simp [Item.node, Node.rank]),
      strayJumps_only.collect_eq_nil (by simp [Item.node, Node.rank])]
  | func func =>
    have params : (func.params.map Node.param).flatMap
        (Node.collect Breach.strayJumps [.func func, .unit unit]) = [] := by
      rw [flatMap_map, flatMap_eq_nil_iff]
      exact fun param _ => strayJumps_only.collect_eq_nil (by simp [Node.rank]) _
    rw [Item.node, jumpsAt_only.collect_eq_own (by simp [Node.rank]) (by simp [Node.rank]),
      Node.collect_eq, Node.children, flatMap_append, params, flatMap_singleton,
      collect_jumps_stmt]
    rfl

/-! ### Repeated functions -/

private theorem functions_sorted (aligned : unit.Aligned) :
    unit.functions.Pairwise (fun left right => left.nameSpan.Before right.nameSpan) ∧
      ∀ func ∈ unit.functions, func.nameSpan.Ordered := by
  have isItem : ∀ func ∈ unit.functions, Item.func func ∈ unit.items := by
    intro func member
    obtain ⟨item, isItem, found⟩ := mem_filterMap.mp member
    cases item with
    | decl => cases found
    | func => exact Option.some.inj found ▸ isItem
  have word : ∀ func, Item.func func ∈ unit.items →
      func.nameSpan.Ordered ∧ func.nameSpan.Inside func.span := by
    intro func member
    have laid : (Node.func func).Laid := aligned.1 _ (mem_map_of_mem member)
    obtain ⟨ordered, inside, -⟩ := laid.fits.word func.nameSpan (by simp [Node.words])
    exact ⟨ordered, inside⟩
  refine ⟨pairwise_filterMap.mpr ?_, fun func member => (word func (isItem func member)).1⟩
  refine (pairwise_map.mp aligned.2).imp_of_mem ?_
  intro left right isLeft isRight order first foundFirst second foundSecond
  cases left with
  | decl => cases foundFirst
  | func =>
    cases right with
    | decl => cases foundSecond
    | func =>
      cases foundFirst
      cases foundSecond
      exact (order.of_inside_left (word first isLeft).2).of_inside_right (word second isRight).2

theorem collect_functions (aligned : unit.Aligned) :
    (Node.unit unit).collect functionsAt [] = (Node.unit unit).collect (Breach.repeatedFunction unit) [] := by
  obtain ⟨sorted, ordered⟩ := functions_sorted aligned
  have whole : Violations.uniqueFunctions unit =
      unit.functions.flatMap fun func => Breach.repeatedFunction unit ⟨.func func, [.unit unit]⟩ :=
    map_repeated_eq sorted ordered _
  rw [functionsAt_only.collect_eq_own (by simp [Node.rank]) (by simp [Node.rank]), Node.collect_eq]
  refine whole.trans ?_
  rw [CompUnit.functions, filterMap_eq_flatMap_toList, flatMap_assoc, Node.children, flatMap_map]
  refine flatMap_congr fun item _ => ?_
  cases item with
  | decl => exact (repeatedFunction_only.collect_eq_nil (by simp [Item.node, Node.rank]) _).symm
  | func =>
    rw [Item.node, repeatedFunction_only.collect_eq_own (by simp [Node.rank]) (by simp [Node.rank])]
    simp

/-! ### All rules at one node -/

def unusedAt (settings : CheckSettings) (linkage : Linkage) (site : Node.Site) : List Report :=
  if settings.unusedVariables.isGiven then Rule.usedLocals.violations linkage site else []

theorem select_violations (settings : CheckSettings) (linkage : Linkage) (site : Node.Site) :
    (settings.select Rulebook.standard).violations linkage site =
      (Rulebook.standard.without .usedLocals).violations linkage site ++ unusedAt settings linkage site := by
  rw [CheckSettings.select, unusedAt]
  split
  · obtain ⟨node, _⟩ := site
    simp only [Rulebook.violations, Rulebook.rulesFor, Rulebook.standard, Rulebook.without]
    cases node with
    | stmt statement =>
      cases statement <;> simp [Node.kind, Rule.violations]
    | expr expression =>
      cases expression <;> simp [Node.kind, Rule.violations]
    | _ => simp [Node.kind, Rule.violations]
  · rw [append_nil]

private theorem violations_perm (aligned : unit.Aligned)
    (linked : unit.link = .ok linkage) {site : Node.Site} (member : site ∈ (Node.unit unit).sites) :
    ((Rulebook.standard.without .usedLocals).violations linkage site).Perm
      (namesAt site ++ (functionsAt site ++ (jumpsAt site ++ Breach.ofNode unit site))) := by
  obtain ⟨node, ancestors⟩ := site
  simp only [Rulebook.violations, Rulebook.rulesFor, Rulebook.standard, Rulebook.without]
  cases node with
  | func =>
    simpa [Node.kind, Rule.violations, namesAt, functionsAt, jumpsAt, Breach.ofNode] using perm_append_comm
  | stmt statement =>
    cases statement <;> simp [Node.kind, namesAt, functionsAt, jumpsAt, Breach.ofNode]
  | expr expression =>
    cases expression with
    | lval reference =>
      have target := CompUnit.target?_of_lval aligned linked member rfl
      cases found : Lexical.variableTarget unit ancestors reference <;>
        simp [Node.kind, Rule.violations, namesAt, functionsAt, jumpsAt, Breach.ofNode, Violations.definedVariable,
          target, found]
    | call reference arguments span =>
      have target := CompUnit.target?_of_call aligned linked member rfl
      suffices ((Violations.definedFunction linkage reference ++
          (Violations.argumentCount linkage reference arguments span ++
            Violations.voidValue linkage ancestors.head? reference span)).Perm _) by
        simpa [Node.kind, Rule.violations, Node.Site.parent?] using this
      rw [Violations.definedFunction, Violations.argumentCount, Violations.voidValue, target]
      simp only [namesAt, functionsAt, jumpsAt, Breach.ofNode, nil_append]
      cases Lexical.functionTarget unit reference with
      | none => exact .refl _
      | some declaration => cases declaration <;> exact .refl _
    | _ => simp [Node.kind, namesAt, functionsAt, jumpsAt, Breach.ofNode]
  | _ => simp [Node.kind, Rule.violations, namesAt, functionsAt, jumpsAt, Breach.ofNode]

/-! ### All nodes -/

private theorem flatMap_pieces_perm (first second third fourth : Node.Site → List Report) (sites : List Node.Site) :
    (sites.flatMap fun site => first site ++ (second site ++ (third site ++ fourth site))).Perm
      (sites.flatMap first ++ (sites.flatMap second ++ (sites.flatMap third ++ sites.flatMap fourth))) := by
  refine (flatMap_append_perm sites _ _).symm.trans (List.Perm.append_left _ ?_)
  refine (flatMap_append_perm sites _ _).symm.trans (List.Perm.append_left _ ?_)
  exact (flatMap_append_perm sites _ _).symm

theorem violations_perm_reports (aligned : unit.Aligned) (linked : unit.link = .ok linkage) :
    ((Node.unit unit).sites.flatMap ((Rulebook.standard.without .usedLocals).violations linkage)).Perm
      ((Node.unit unit).sites.flatMap (Breach.reports unit)) := by
  have names : (Node.unit unit).sites.flatMap namesAt =
      (Node.unit unit).sites.flatMap Breach.repeatedName := by
    refine (Node.collect_eq _ _ _).trans (Eq.trans ?_ (Node.collect_eq _ _ _).symm)
    exact congrArg₂ _ rfl (flatMap_congr fun item member => collect_names (aligned.1 item member) (by simp))
  have functions : (Node.unit unit).sites.flatMap functionsAt =
      (Node.unit unit).sites.flatMap (Breach.repeatedFunction unit) :=
    collect_functions aligned
  have jumps : (Node.unit unit).sites.flatMap jumpsAt =
      (Node.unit unit).sites.flatMap Breach.strayJumps := by
    refine (Node.collect_eq _ _ _).trans (Eq.trans ?_ (Node.collect_eq _ _ _).symm)
    refine congrArg₂ _ rfl (flatMap_congr fun node member => ?_)
    obtain ⟨_, -, rfl⟩ := mem_map.mp member
    exact collect_jumps
  refine (List.Perm.flatMap_left _ fun site member => violations_perm aligned linked member).trans ?_
  refine (flatMap_pieces_perm _ _ _ _ _).trans ?_
  rw [names, functions, jumps]
  exact (flatMap_pieces_perm _ _ _ _ _).symm

end Checking

end SysYTools
