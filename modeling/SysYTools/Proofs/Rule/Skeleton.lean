import SysYTools.Proofs.Scope.Skeleton

/-!
Checking a skeleton. The rules compare names with names and the places of words with each other, so a
skeleton whose pin keeps different places apart breaks the same rules, and for the same reasons, as the
program: its sites follow those of the program.
-/

namespace SysYTools

open List

variable {pin : Span → Span}

/-! ## Meanings of names -/

section Meanings

variable {linkage mirror : Linkage}

theorem Reference.relocate_inj (injective : Function.Injective pin) {reference other : Reference} :
    reference.relocate (.pinned pin) = other.relocate (.pinned pin) ↔ reference = other := by
  obtain ⟨_, _⟩ := reference
  obtain ⟨_, _⟩ := other
  simp only [relocate, Reference.mk.injEq, injective.eq_iff]

theorem Linkage.Mirrors.target? (mirrors : linkage.Mirrors (.pinned pin) mirror) (injective : Function.Injective pin)
    (reference : Reference) :
    mirror.target? (reference.relocate (.pinned pin)) =
      (linkage.target? reference).map (·.relocate (.pinned pin)) := by
  have same : (fun binding : Binding =>
      (binding.relocate (.pinned pin)).reference == reference.relocate (.pinned pin)) =
      fun binding => binding.reference == reference := by
    funext binding
    rw [Bool.eq_iff_iff, beq_iff_eq, beq_iff_eq]
    exact Reference.relocate_inj injective
  rw [Linkage.target?, Linkage.target?, mirrors.bindings, List.find?_map, Function.comp_def, same]
  cases linkage.bindings.find? (·.reference == reference) <;> rfl

theorem Linkage.Mirrors.uses (mirrors : linkage.Mirrors (.pinned pin) mirror) (injective : Function.Injective pin)
    (var : VarDef) : mirror.uses (var.relocate (.pinned pin)) = linkage.uses var := by
  rw [Linkage.uses, Linkage.uses, mirrors.bindings, any_map]
  congr 1
  funext binding
  obtain ⟨_, target⟩ := binding
  match target with
  | none => rfl
  | some (.parameter param) => rfl
  | some (.function func) => rfl
  | some (.variable decl target) =>
    change (pin target.nameSpan == pin var.nameSpan) = (target.nameSpan == var.nameSpan)
    rw [Bool.eq_iff_iff, beq_iff_eq, beq_iff_eq, injective.eq_iff]

end Meanings

/-! ## Violations -/

/-- What is wrong, without the places. -/
def Report.problems (reports : List Report) : List Problem := reports.map (·.problem)

theorem Report.problems_relocate (move : Relocation) (reports : List Report) :
    problems (reports.map (·.relocate move)) = problems reports := by
  rw [problems, map_map]
  rfl

open Report

theorem Declaration.contract_relocate {move : Relocation} (declaration : Declaration) :
    (declaration.relocate move).contract = declaration.contract := by
  cases declaration with
  | «variable» decl var => rfl
  | parameter => rfl
  | function => simp only [relocate, contract, FuncDef.contract, FuncDef.relocate, length_map]

theorem Node.Site.moves_relocate {move : Relocation} (site : Node.Site) : site.Moves move (site.relocate move) where
  node := rfl
  roles := by simp only [Site.relocate, map_map, Function.comp_def, role_relocate]

section Rules

variable {linkage mirror : Linkage} (mirrors : linkage.Mirrors (.pinned pin) mirror)
  (injective : Function.Injective pin)
include mirrors injective

theorem Node.Site.follows_skeleton (site : Node.Site) :
    site.Follows (.pinned pin) linkage mirror (site.relocate (.pinned pin)) where
  node := rfl
  isLocal := site.moves_relocate.isLocal
  standsAlone := site.moves_relocate.standsAlone
  meaning := by
    intro reference _
    rw [mirrors.target? injective reference, Option.map_map]
    congr 1
    exact funext Declaration.contract_relocate
  used := fun _ _ _ var _ => mirrors.uses injective var

theorem Program.violations_skeleton (unit : CompUnit) (rulebook : Rulebook) :
    problems (Program.violations ⟨unit.relocate (.pinned pin), mirror⟩ rulebook) =
      problems (Program.violations ⟨unit, linkage⟩ rulebook) := by
  have sites := @Node.sitesUnder_relocate (.pinned pin) [] (.unit unit)
  have same : ∀ site : Node.Site, problems (rulebook.violations mirror (site.relocate (.pinned pin))) =
      problems (rulebook.violations linkage site) := by
    intro site
    rw [rulebook.violations_follows (site.follows_skeleton mirrors injective), problems_relocate]
  simp only [Program.violations, problems, map_flatMap, Node.sites]
  rw [show Node.unit (unit.relocate _) = (Node.unit unit).relocate (.pinned pin) from rfl, ← map_nil, sites,
    flatMap_map]
  exact flatMap_congr fun site _ => same site

end Rules

end SysYTools
