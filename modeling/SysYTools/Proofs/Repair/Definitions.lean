import SysYTools.Proofs.Repair.Elements
import SysYTools.Proofs.Repair.Sizes
import SysYTools.Rule.Declarations

/-!
The repair of one definition. A definition whose list is too long for its first dimension gets the number of elements
of the list as this dimension; every other definition is kept.
-/

namespace SysYTools

open List Lexis Grammar

variable {var : VarDef} {written : String}

/-! ## What becomes of a definition -/

/-- A definition with its list as long as its first dimension says, or longer. -/
def VarDef.grown (var : VarDef) : VarDef :=
  match var.dims, var.init with
  | .intLit _ span :: further, some (.list elements _) =>
    if (Violations.arrayBounds var).isEmpty then var
    else { var with dims := .intLit (toString elements.length) span :: further }
  | _, _ => var

/-- The raw text of the definition says what its tree says. Its size has not too many digits to be read, and
if its list is too long, then the size is a decimal numeral, no index stands in its further dimensions, and
the number of elements has not too many digits either. -/
def VarDef.Repairable (var : VarDef) : Prop :=
  match var.dims, var.init with
  | .intLit written _ :: further, some (.list elements _) =>
    (AllDigits written.toList → written.toList.length ≤ digitLimit) ∧
      (Violations.arrayBounds var ≠ [] → Literal.isDecimal written = true ∧
        (∀ dim ∈ further, dim.isUnindexed = true) ∧ (toString elements.length).toList.length ≤ digitLimit)
  | _, _ => True

theorem VarDef.grown_of_nil (fits : Violations.arrayBounds var = []) : var.grown = var := by
  unfold grown
  split
  · rw [fits]
    rfl
  · rfl

theorem Violations.arrayBounds_eq_nil {span listSpan : Span}
    {further : List Expr} {elements : List InitVal} {value : Int} (isArray : var.dims = .intLit written span :: further)
    (isList : var.init = some (.list elements listSpan)) (read : Literal.intValue written = .ok value) :
    arrayBounds var = [] ↔ elements.length ≤ value := by
  simp only [arrayBounds, isArray, isList, read]
  split
  next fits => simpa using fits
  next exceeds => simpa using exceeds

theorem Violations.exists_of_arrayBounds (exceeds : arrayBounds var ≠ []) :
    ∃ written span further elements listSpan, var.dims = .intLit written span :: further ∧
      var.init = some (.list elements listSpan) := by
  unfold arrayBounds at exceeds
  split at exceeds
  next written span further elements listSpan isArray isList =>
    exact ⟨written, span, further, elements, listSpan, isArray, isList⟩
  · exact absurd rfl exceeds

theorem Literal.allDigits_of_isDecimal (form : IsInteger written.toList)
    (decimal : isDecimal written = true) : AllDigits written.toList := by
  rw [isDecimal] at decimal
  generalize written.toList = text at *
  cases form with
  | decimal digit _ all => exact forall_mem_cons.mpr ⟨digit, all⟩
  | @octal rest _ =>
    cases rest with
    | nil => simp [AllDigits]
    | cons => cases decimal
  | hexadecimal => cases decimal

namespace Grammar

theorem Definition.resize {name opening closing sign : Token} {more initial : List Token} {further : List Expr}
    {stop start : Span} {init : InitVal} (named : name.kind = .identifier) (opens : opening.kind = .leftBracket)
    (closes : closing.kind = .rightBracket) (others : Indices start more further stop)
    (assigns : sign.kind = .assign) (derived : Initializer initial init) {digits : Text} {tokens' : List Token}
    (same : tokens'.map wordOf = wordOf name :: wordOf opening :: (.integerLiteral, digits) :: wordOf closing ::
      (more.map wordOf ++ wordOf sign :: initial.map wordOf)) :
    ∃ var', Definition tokens' var' ∧ var'.shape =
      { name := name.value, dims := .intLit (String.ofList digits) .nowhere :: Expr.shapes further
        init := some init.shape, span := .nowhere, nameSpan := .nowhere } := by
  obtain ⟨name', _, rfl, sameName, same⟩ := map_eq_cons_iff.mp same
  obtain ⟨opening', _, rfl, sameOpening, same⟩ := map_eq_cons_iff.mp same
  obtain ⟨size', _, rfl, sameSize, same⟩ := map_eq_cons_iff.mp same
  obtain ⟨closing', _, rfl, sameClosing, same⟩ := map_eq_cons_iff.mp same
  obtain ⟨more', _, rfl, sameMore, same⟩ := map_eq_append_iff.mp same
  obtain ⟨_, _, rfl, sameSign, sameInitial⟩ := map_eq_cons_iff.mp same
  obtain ⟨isLiteral, isDigits⟩ := Prod.mk.inj sameSize
  obtain ⟨_, stop', others', shapes⟩ := others.reword sameMore closing'.span
  obtain ⟨_, derived', shape⟩ := derived.reword sameInitial
  rw [← kind_of_wordOf sameName] at named
  rw [← kind_of_wordOf sameOpening] at opens
  rw [← kind_of_wordOf sameClosing] at closes
  rw [← kind_of_wordOf sameSign] at assigns
  have literal : ExprAt 1 [size'] (.intLit size'.value size'.span) :=
    (ExprAt.intLit isLiteral).loosen (by decide) le_rfl
  have dims : Indices name'.span (opening' :: size' :: closing' :: more') _ stop' := .cons opens literal closes others'
  refine ⟨_, .initialized named dims assigns derived', ?_⟩
  simp only [VarDef.shape, value_of_wordOf sameName, Expr.shapes, Expr.shape, shapes, Option.map_some, shape,
    ← isDigits, String.ofList_toList]

end Grammar

/-! ## A size in place of another -/

theorem Lexis.Fits.resize {front dims behind : List Piece} {name : Text}
    (fits : Fits (front ++ (.token .identifier, name) :: (dims ++ behind))) (number : Nat) :
    Fits (front ++ (.token .identifier, name) :: (.token .leftBracket, ['[']) ::
      (.token .integerLiteral, Repair.decimalText number) :: (.token .rightBracket, [']']) :: behind) := by
  have some : Repair.decimalText number ≠ [] := by
    rw [show Repair.decimalText number = Nat.toDigits 10 number from Nat.toList_repr]
    exact Nat.toDigits_ne_nil
  have plain : ∀ c more, Repair.decimalText number ≠ '0' :: c :: more := by
    intro c more isZero
    have decimal := Literal.isDecimal_toString number
    rw [Literal.isDecimal, show (toString number).toList = _ from isZero] at decimal
    cases decimal
  obtain ⟨_, sized, -, isLiteral⟩ := @pieces_digits (Repair.decimalText number) (']' :: written behind)
    (Literal.allDigits_toString number) some (by rintro c ⟨⟩; exact ⟨rfl, by decide⟩)
  obtain rfl := isLiteral plain
  rw [append_cons] at fits
  have sound : ∀ piece ∈ front ++ [(Lexeme.token .identifier, name)], Sound piece :=
    fun piece member => fits.sound piece (mem_append_left _ member)
  have member : (Lexeme.token .identifier, name) ∈
      Lexis.pieces (written (front ++ [(.token .identifier, name)] ++ (dims ++ behind))) := by
    rw [fits.pieces]
    simp
  have gentle : Gentle ('[' :: (Repair.decimalText number ++ ']' :: written behind)) := .of_isDelimiter rfl
  have swapped := pieces_swap fits.pieces sound gentle (by
    intro last isLast
    obtain rfl : (Lexeme.token .identifier, name) = last := by simpa using isLast
    exact Apart.of_isDelimiter rfl (not_comment_of_mem_pieces member))
  rw [pieces_cons_mark rfl rfl, sized, pieces_cons_mark rfl rfl, fits.right.right.pieces] at swapped
  constructor
  · simpa using swapped
  · intro piece member
    simp only [mem_append, mem_cons] at member
    rcases member with member | rfl | rfl | rfl | rfl | member
    · exact fits.sound piece (by simp [member])
    · exact .inr ⟨_, rfl⟩
    · exact .inr ⟨_, rfl⟩
    · exact .inr ⟨_, rfl⟩
    · exact .inr ⟨_, rfl⟩
    · exact fits.sound piece (by simp [member])

end SysYTools
