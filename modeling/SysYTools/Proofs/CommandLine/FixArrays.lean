import SysYTools.CommandLine.FixArrays
import SysYTools.Proofs.Literal
import SysYTools.Proofs.Repair.Growth

/-!
What the repair of arrays changes, in any text at all. A repair that ends gives the text that is made from left to
right, so that nothing but sizes is changed, and the changes that it tells are those that it makes.
-/

namespace SysYTools

open List Text

namespace Repair

variable {after text text' : Text} {before : Option Char} {change : SizeChange} {changes : List SizeChange}
  {head : ArrayHead}

/-! ## One change -/

theorem growth?_some (grows : growth? head after = .ok (some change)) :
    sizeValue head.digits = .ok change.oldSize ∧ change.oldSize < change.newSize := by
  unfold growth? at grows
  split at grows
  · cases grows
  next closing _ =>
    cases sized : sizeValue head.digits with
    | error => simp [sized, bind, Except.bind] at grows
    | ok =>
      simp only [sized, bind, Except.bind, pure, Except.pure] at grows
      split at grows
      · cases grows
      next long =>
        cases grows
        exact ⟨rfl, Int.not_le.mp long⟩

theorem sizeValue_decimalText {number : Nat} {size : Int} (read : sizeValue (decimalText number) = .ok size) :
    size = number := by
  have all := Literal.allDigits_toString number
  have range : ∀ c ∈ (toString number).toList, 48 ≤ c.toNat ∧ c.toNat ≤ 122 := by
    intro c member
    have digit := Lexis.isDigit_iff.mp (all c member)
    omega
  rw [sizeValue, decimalText, Radix.readInt_of_digits range (Radix.decimal_dropMark _) (Literal.toString_ne_nil number)
    fun c member => Radix.isDigitOf_decimal (all c member), Radix.valueOf_toString] at read
  split at read
  · cases read
  · exact (Except.ok.inj read).symm

theorem HeadText.regrown_ne {old middle : Text} (found : HeadText text head old middle after)
    (grows : growth? head after = .ok (some change)) (more : Text) : regrown head old (some change) ++ more ≠ text := by
  obtain ⟨outer, left, right, _, _, _, form⟩ := readArrayHead_eq_some found.read
  obtain ⟨sized, _⟩ := growth?_some grows
  have all := Literal.allDigits_toString change.newSize
  have solid : ∀ c ∈ decimalText change.newSize, isBlank c = false := fun c member =>
    Lexis.not_isBlank_of_isNameChar (Lexis.isNameChar_of_isDigit (all c member))
  have blank : ∀ c ∈ outer ++ (left ++ right), isBlank c = true := fun c member =>
    form.blank c (mem_append_left _ member)
  intro same
  have split := same.trans form.whole
  simp only [regrown, sizedName, append_assoc, cons_append, nil_append, append_cancel_left_eq] at split
  -- the bracket follows the name at once, and the digits fill the brackets
  cases outer with
  | cons =>
    obtain ⟨rfl, -⟩ := List.cons.inj split
    cases blank '[' mem_cons_self
  | nil =>
    have closed : ']' ∉ decimalText change.newSize := fun member => by cases all ']' member
    have digits : decimalText change.newSize = left ++ head.digits ++ right :=
      (split_until closed form.unclosed (by simpa using split)).1
    have empty : ∀ {run : Text}, run ⊆ left ++ right → run ⊆ decimalText change.newSize → run = [] := by
      intro run isBlank within
      refine eq_nil_iff_forall_not_mem.mpr fun c member => ?_
      have other := solid c (within member)
      rw [blank c (isBlank member)] at other
      cases other
    have noLeft : left = [] := empty (by simp) (by simp [digits])
    have noRight : right = [] := empty (by simp) (by simp [digits])
    rw [noLeft, noRight, append_nil, nil_append] at digits
    have value := sizeValue_decimalText (digits ▸ sized)
    omega

/-! ## All changes -/

theorem Grows.less (grows : Grows before text text' changes) : ∀ change ∈ changes, change.oldSize < change.newSize := by
  induction grows with
  | done => simp
  | skip _ _ ih => exact ih
  | @head _ _ _ _ _ _ change _ _ _ isGrowth _ ih =>
    refine forall_mem_append.mpr ⟨?_, ih⟩
    intro other member
    obtain rfl := Option.mem_toList.mp member
    exact (growth?_some isGrowth).2

theorem Grows.eq_iff (grows : Grows before text text' changes) : text' = text ↔ changes = [] := by
  induction grows with
  | done => simp
  | skip _ _ ih => simpa using ih
  | @head _ head old middle after after' change changes _ found isGrowth _ ih =>
    cases change with
    | none => simpa [regrown] using ih
    | some =>
      have other := found.regrown_ne isGrowth (middle ++ after')
      simpa using other

theorem exists_grows {uri : String} {front : Text} {resume : Nat} {found : List (Option (Edit × SizeChange))}
    (here : resume ≤ front.length) (mapped : (occurrencesFrom readArrayHead before front.length resume text).mapM
      (sizeChange? { uri, text := front ++ text }) = .ok found) :
    ∃ text' changes, Grows before text text' changes := by
  induction size_eq : text.length using Nat.strong_induction_on generalizing before text front resume found with
  | _ size ih =>
  cases text with
  | nil => exact ⟨[], [], .done⟩
  | cons c rest =>
    by_cases starts : isWordBoundary before (some c) = true ∧ (readArrayHead (c :: rest)).isSome = true
    · obtain ⟨boundary, read⟩ := starts
      obtain ⟨⟨head, after⟩, read⟩ := Option.isSome_iff_exists.mp read
      obtain ⟨old, middle, isHead⟩ := exists_headText read
      have whole := isHead.whole
      have boundary : isWordBoundary before old.head? = true := by
        obtain ⟨d, others, rfl⟩ := exists_cons_of_ne_nil isHead.ne_nil
        obtain ⟨rfl, -⟩ := List.cons.inj whole
        exact boundary
      rw [whole] at isHead mapped ⊢
      have shape : front ++ (old ++ middle ++ after) = (front ++ (old ++ middle)) ++ after := by simp
      have next : front.length + (old ++ middle).length = (front ++ (old ++ middle)).length := length_append.symm
      rw [isHead.occurrences boundary _ _ here, mapM_cons, isHead.sizeChange?, shape, next] at mapped
      cases growth : growth? head after with
      | error => simp [growth, Except.map, bind, Except.bind] at mapped
      | ok =>
        simp only [growth, Except.map, bind, Except.bind] at mapped
        split at mapped
        · cases mapped
        next others more =>
          have shorter : after.length < size := by
            have positive := length_pos_iff.mpr isHead.ne_nil
            rw [← size_eq, whole, length_append, length_append]
            omega
          obtain ⟨_, changes, grows⟩ := ih _ shorter (Nat.le_refl _) more rfl
          exact ⟨_, _, .head boundary isHead growth grows⟩
    · have unread : isWordBoundary before (some c) = true → readArrayHead (c :: rest) = none := by
        intro boundary
        simpa [boundary] using starts
      have shape : front ++ c :: rest = (front ++ [c]) ++ rest := by simp
      have next : front.length + 1 = (front ++ [c]).length := by simp
      rw [occurrencesFrom_skip unread, shape, next] at mapped
      obtain ⟨_, _, grows⟩ := ih rest.length (by simp [← size_eq]) (by simp; omega) mapped rfl
      exact ⟨_, _, .skip unread grows⟩

theorem grows_of_resizeAll (repaired : resizeAll text = .ok (text', changes)) : Grows none text text' changes := by
  cases mapped : (text.occurrences readArrayHead 0).mapM (sizeChange? { uri := "", text }) with
  | error =>
    rw [resizeAll, mapped] at repaired
    cases repaired
  | ok found =>
    obtain ⟨text'', _, grows⟩ := @exists_grows text none "" [] 0 found (Nat.zero_le 0) mapped
    obtain ⟨rfl, rfl⟩ := Prod.mk.inj (Except.ok.inj ((resizeAll_of_grows grows).symm.trans repaired))
    exact grows

end Repair

/-! ## The command -/

namespace Task

variable {α β : Type} {console console' : Console} {task : Task α} {value : α}

/-- A task gives a value and leaves a console. -/
def Gives (task : Task α) (console : Console) (value : α) (console' : Console) : Prop :=
  task.run.run console = (.ok value, console')

theorem Gives.bind (gives : task.Gives console value console') (next : α → Task β) :
    (task >>= next).run.run console = (next value).run.run console' := by
  simp only [Gives, ExceptT.run, StateT.run] at gives ⊢
  simp only [Bind.bind, ExceptT.bind, ExceptT.mk, StateT.bind, gives]
  rfl

theorem forM_print_gives {items : List β} (text : β → String) (console : Console) :
    ∃ output, Gives (items.forM fun item => print (text item)) console () { console with output } := by
  induction items generalizing console with
  | nil => exact ⟨console.output, rfl⟩
  | cons item items ih =>
    have first : Gives (print (text item)) console () _ := rfl
    obtain ⟨output, others⟩ := ih { console with output := console.output ++ line console (text item) }
    exact ⟨output, (first.bind fun _ => items.forM fun item => print (text item)).trans others⟩

end Task

namespace CommandLine

open Repair

variable {console : Console} {file : FilePath} {tree : FileTree} {text text' : Text} {changes : List SizeChange}

/-- A file has a text, and the repair of it ends with a text and changes. -/
def Repairs (tree : FileTree) (file : FilePath) (text text' : Text) (changes : List SizeChange) : Prop :=
  tree.readText file = .ok text ∧ resizeAll text = .ok (text', changes)

/-- The repair gives a file another text. -/
def Alters (tree : FileTree) (file : FilePath) : Prop :=
  ∃ text text' changes, Repairs tree file text text' changes ∧ text' ≠ text

theorem Repairs.alters_iff (repairs : Repairs tree file text text' changes) : Alters tree file ↔ changes ≠ [] := by
  constructor
  · rintro ⟨_, _, _, ⟨read, repaired⟩, _⟩
    obtain rfl := Except.ok.inj (read.symm.trans repairs.1)
    obtain ⟨rfl, rfl⟩ := Prod.mk.inj (Except.ok.inj (repaired.symm.trans repairs.2))
    rwa [ne_eq, ← (grows_of_resizeAll repaired).eq_iff]
  · exact fun some => ⟨text, text', changes, repairs, fun same => some ((grows_of_resizeAll repairs.2).eq_iff.mp same)⟩

theorem fixFile_gives (isDry : Bool) (repairs : Repairs console.files file text text' changes) :
    ∃ output, (fixFile isDry file).Gives console (!changes.isEmpty)
      { console with
        output, files := if isDry || changes.isEmpty then console.files else console.files.writeText file text' } := by
  have files : Task.files.Gives console console.files console := rfl
  have read : (Task.ofExcept (console.files.readText file)).Gives console text console := by
    rw [repairs.1]
    rfl
  have fixed : (Task.ofExcept (resizeAll text)).Gives console (text', changes) console := by
    rw [repairs.2]
    rfl
  obtain ⟨output, told⟩ := @Task.forM_print_gives _ changes (fun change => _) console
  refine ⟨output, ?_⟩
  rw [Task.Gives, fixFile, files.bind, read.bind, fixed.bind]
  simp only
  rw [told.bind]
  cases isDry <;> cases changes <;> rfl

theorem mapM_fixFile_gives {files : List FilePath} (same : console.files = tree)
    (repairs : ∀ file ∈ files, ∃ text text' changes, Repairs tree file text text' changes) :
    ∃ results console', (files.mapM (fixFile true)).Gives console results console' ∧
      (results.any id = true ↔ ∃ file ∈ files, Alters tree file) := by
  induction files generalizing console with
  | nil => exact ⟨[], console, rfl, by simp⟩
  | cons file _ ih =>
    obtain ⟨⟨text, text', changes, first⟩, others⟩ := forall_mem_cons.mp repairs
    obtain ⟨output, gives⟩ := @fixFile_gives console file text text' changes true (same ▸ first)
    obtain ⟨results, console', given, any⟩ := @ih { console with output } same others
    refine ⟨(!changes.isEmpty) :: results, console', ?_, ?_⟩
    · rw [Task.Gives, mapM_cons, gives.bind]
      exact given.bind _
    · simp only [any_cons, id, Bool.or_eq_true, any, mem_cons, exists_eq_or_imp, first.alters_iff]
      simp

theorem fixArrays_isDry_iff {paths : List String}
    (repairs : ∀ file ∈ sourceFiles console.files paths, ∃ text text' changes,
      Repairs console.files file text text' changes) :
    ((fixArrays paths true).run.run console).1 = .error (.exit 1) ↔
      ∃ file ∈ sourceFiles console.files paths, Alters console.files file := by
  have files : Task.files.Gives console console.files console := rfl
  rw [fixArrays, files.bind]
  split
  next none => exact iff_of_false nofun (by simp [none])
  · obtain ⟨results, _, gives, any⟩ := mapM_fixFile_gives rfl repairs
    rw [gives.bind, ← any]
    cases results.any id with
    | false => exact iff_of_false nofun nofun
    | true => exact iff_of_true rfl rfl

end CommandLine

open Repair CommandLine

/-- The text and the changes of a repair are those of going over the text from left to right, an array grows where
it changes, and there is a change if and only if the text is another one. The command writes a file if and only if
the repair gives it another text, and a dry run fails if and only if there is such a file. -/
theorem resizeAll_rewrites :
    (∀ text text' changes, resizeAll text = .ok (text', changes) →
      Grows none text text' changes ∧ (∀ change ∈ changes, change.oldSize < change.newSize) ∧
        (text' ≠ text ↔ changes ≠ [])) ∧
    (∀ console file text text' changes, Repairs console.files file text text' changes →
      ((fixFile false file).run.run console).2.files =
        if text' = text then console.files else console.files.writeText file text') ∧
    ∀ (console : Console) (paths : List String),
      (∀ file ∈ sourceFiles console.files paths, ∃ text text' changes, Repairs console.files file text text' changes) →
      (((fixArrays paths true).run.run console).1 = .error (.exit 1) ↔
        ∃ file ∈ sourceFiles console.files paths, Alters console.files file) := by
  refine ⟨fun text text' changes repaired => ?_, fun console file text text' changes repairs => ?_,
    fun console paths => ?_⟩
  · have grows := grows_of_resizeAll repaired
    exact ⟨grows, grows.less, grows.eq_iff.not⟩
  · obtain ⟨_, gives⟩ := fixFile_gives false repairs
    rw [gives]
    simp [(grows_of_resizeAll repairs.2).eq_iff]
  · exact fixArrays_isDry_iff

/-- Of two arrays only the first one grows, and the blanks before and in its brackets are lost. -/
theorem resizeAll_rewrites_spaced :
    Grows none "int a [ 1 ][2]=\x7b1,2\x7d,b[3]=\x7b0\x7d;".toList "int a[2][2]=\x7b1,2\x7d,b[3]=\x7b0\x7d;".toList
      [⟨"a".toList, 1, 2⟩] :=
  (resizeAll_rewrites.1 _ _ _ (by cbv)).1

end SysYTools
