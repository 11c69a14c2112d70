import Mathlib
import SysYTools.Fix.Table

/-!
What a table of fixes holds after its keys have been bound, some of them again and again. The last binding of a key
gives its primary resolver. It gives the further ones too, if it has any; otherwise those of the last binding that had
some are left.
-/

namespace SysYTools

open List

namespace FixBinding

variable {binding : FixBinding} {bindings history history' : List FixBinding} {key : String}

/-- The bindings of a table after a list of them, from the first one to the last one. -/
def putAll (history : List FixBinding) : List FixBinding := history.foldl put []

/-- The last binding of a key. -/
def last? (history : List FixBinding) (key : String) : Option FixBinding := history.reverse.find? (·.key == key)

/-- The further resolvers of the last binding of a key that gives some. -/
def lastFurther (history : List FixBinding) (key : String) : List Resolver :=
  (history.reverse.find? fun binding => binding.key == key && !binding.further.isEmpty).elim [] (·.further)

/-- What is left of the bindings of a key. -/
def settled? (history : List FixBinding) (key : String) : Option FixBinding :=
  (last? history key).map fun binding => { binding with further := lastFurther history key }

theorem last?_eq_none_iff : last? history key = none ↔ ∀ binding ∈ history, binding.key ≠ key := by simp [last?]

theorem lastFurther_of_last? {last : FixBinding} (isLast : last? history key = some last)
    (some : last.further ≠ []) : lastFurther history key = last.further := by
  obtain ⟨_, later, earlier, split, others⟩ := find?_eq_some_iff_append.mp isLast
  have found : history.reverse.find? (fun binding => binding.key == key && !binding.further.isEmpty) = .some last := by
    refine find?_eq_some_iff_append.mpr ⟨?_, later, earlier, split, fun binding member => ?_⟩
    · simp_all
    · have other := others binding member
      simp_all
  rw [lastFurther, found]
  rfl

theorem lastFurther_eq_nil_iff :
    lastFurther history key = [] ↔ ∀ binding ∈ history, binding.key = key → binding.further = [] := by
  rw [lastFurther]
  cases found : history.reverse.find? fun binding => binding.key == key && !binding.further.isEmpty with
  | none => simpa using found
  | some binding =>
    have isBinding := mem_reverse.mp (mem_of_find?_eq_some found)
    have given : binding.key = key ∧ binding.further ≠ [] := by simpa using find?_some found
    exact iff_of_false given.2 fun none => given.2 (none binding isBinding given.1)

/-! ## One binding more -/

theorem last?_append (history : List FixBinding) (binding : FixBinding) (key : String) :
    last? (history ++ [binding]) key = if binding.key = key then some binding else last? history key := by
  by_cases own : binding.key = key <;> simp [last?, own]

theorem lastFurther_append (history : List FixBinding) (binding : FixBinding) (key : String) :
    lastFurther (history ++ [binding]) key =
      if binding.key = key ∧ binding.further ≠ [] then binding.further else lastFurther history key := by
  by_cases own : binding.key = key <;> by_cases none : binding.further = [] <;> simp [lastFurther, own, none]

theorem find?_put (bindings : List FixBinding) (binding : FixBinding) (key : String) :
    (put bindings binding).find? (·.key == key) =
      if binding.key = key then
        let old := (bindings.find? (·.key == key)).elim [] (·.further)
        some { binding with further := if binding.further = [] then old else binding.further }
      else bindings.find? (·.key == key) := by
  induction bindings with
  | nil =>
    obtain ⟨own, _, further⟩ := binding
    by_cases same : own = key <;> cases further <;> simp [put, same]
  | cons old _ ih =>
    by_cases bound : old.key = binding.key
    · by_cases same : binding.key = key <;> simp [put, bound, same]
    · by_cases same : binding.key = key
      · have other : old.key ≠ key := same ▸ bound
        simp [put, ih, same, other]
      · rw [put, if_neg bound, find?_cons, find?_cons, ih, if_neg same, if_neg same]

theorem keys_put (bindings : List FixBinding) (binding : FixBinding) :
    (put bindings binding).map (·.key) =
      if binding.key ∈ bindings.map (·.key) then bindings.map (·.key) else bindings.map (·.key) ++ [binding.key] := by
  induction bindings with
  | nil => rfl
  | cons old _ ih =>
    by_cases bound : old.key = binding.key
    · simp [put, bound]
    · have other : binding.key ≠ old.key := fun same => bound same.symm
      rw [put, if_neg bound, map_cons, ih]
      simp only [map_cons, mem_cons, other, false_or]
      split <;> rfl

/-! ## All bindings -/

section

variable (history : List FixBinding)

theorem putAll_append (binding : FixBinding) : putAll (history ++ [binding]) = put (putAll history) binding := by
  rw [putAll, foldl_append]
  rfl

theorem find?_putAll (key : String) : (putAll history).find? (·.key == key) = settled? history key := by
  induction history using List.reverseRecOn with
  | nil => rfl
  | append_singleton history binding ih =>
    rw [putAll_append, find?_put, ih, settled?, settled?, last?_append, lastFurther_append]
    have old : ((last? history key).map fun last => { last with further := lastFurther history key }).elim []
        (·.further) = lastFurther history key := by
      cases bound : last? history key with
      | none =>
        have unbound := last?_eq_none_iff.mp bound
        exact (lastFurther_eq_nil_iff.mpr fun other member own => absurd own (unbound other member)).symm
      | some => rfl
    by_cases own : binding.key = key
    · by_cases none : binding.further = [] <;> simp [own, none, old]
    · simp [own]

theorem keys_putAll : (putAll history).map (·.key) = (history.map (·.key)).eraseDups := by
  induction history using List.reverseRecOn with
  | nil => rfl
  | append_singleton history binding ih =>
    rw [putAll_append, keys_put, ih, map_append, eraseDups_append]
    by_cases bound : binding.key ∈ history.map (·.key)
    · rw [if_pos (mem_eraseDups.mpr bound)]
      simp [List.removeAll, mem_map.mp bound]
    · rw [if_neg (mem_eraseDups.not.mpr bound)]
      have fresh : [binding.key].removeAll (history.map (·.key)) = [binding.key] := by
        simpa [List.removeAll] using bound
      rw [map_singleton, fresh]
      rfl

theorem nodup_keys_putAll : ((putAll history).map (·.key)).Nodup := by
  induction history using List.reverseRecOn with
  | nil => exact nodup_nil
  | append_singleton _ _ ih =>
    rw [putAll_append, keys_put]
    split
    · exact ih
    next fresh => exact nodup_append_comm.mp (nodup_cons.mpr ⟨fresh, ih⟩)

theorem putAll_eq : putAll history = (history.map (·.key)).eraseDups.filterMap (settled? history) := by
  have each : ∀ binding ∈ putAll history, settled? history binding.key = some binding := by
    intro binding member
    rw [← find?_putAll]
    obtain ⟨found, isFound⟩ : ∃ found, (putAll history).find? (·.key == binding.key) = some found :=
      Option.isSome_iff_exists.mp (find?_isSome.mpr ⟨binding, member, beq_self_eq_true _⟩)
    have same : found.key = binding.key := by simpa using find?_some isFound
    rw [isFound, inj_on_of_nodup_map (nodup_keys_putAll history) (mem_of_find?_eq_some isFound) member same]
  rw [← keys_putAll, filterMap_map]
  exact (filterMap_congr each).trans filterMap_some |>.symm

end

/-! ## What later bindings replace -/

/-- Two lists of bindings for the same keys differ only in what later bindings replace: in the primary resolvers of
keys that are bound again, and in the further resolvers of keys that are bound again with further ones. -/
inductive Agree : List FixBinding → List FixBinding → Prop where
  | nil : Agree [] []
  | cons {first first' : FixBinding} {rest rest' : List FixBinding} : first'.key = first.key →
      ((∀ later ∈ rest, later.key ≠ first.key) → first'.primary = first.primary) →
      ((∀ later ∈ rest, later.key = first.key → later.further = []) → first'.further = first.further) →
      Agree rest rest' → Agree (first :: rest) (first' :: rest')

theorem lastFurther_cons (first : FixBinding) (rest : List FixBinding) (key : String) :
    lastFurther (first :: rest) key =
      if lastFurther rest key = [] then if first.key = key then first.further else [] else lastFurther rest key := by
  split
  next none =>
    have absent : rest.reverse.find? (fun binding => binding.key == key && !binding.further.isEmpty) = .none := by
      simpa using lastFurther_eq_nil_iff.mp none
    rw [lastFurther, reverse_cons, List.find?_append, absent]
    by_cases own : first.key = key <;> by_cases empty : first.further = [] <;> simp [own, empty]
  next some =>
    rw [lastFurther] at some
    rw [lastFurther, lastFurther, reverse_cons, List.find?_append]
    cases found : rest.reverse.find? fun binding => binding.key == key && !binding.further.isEmpty with
    | none => exact absurd (by rw [found]; rfl) some
    | some => rfl

namespace Agree

section

variable (agree : Agree history history')
include agree

theorem keys : history'.map (·.key) = history.map (·.key) := by
  induction agree with
  | nil => rfl
  | cons key _ _ _ ih => rw [map_cons, map_cons, key, ih]

theorem primary (key : String) : (last? history' key).map (·.primary) = (last? history key).map (·.primary) := by
  induction agree with
  | nil => rfl
  | @cons first first' rest rest' sameKey same _ _ ih =>
    have last : ∀ (first : FixBinding) (rest : List FixBinding),
        last? (first :: rest) key = (last? rest key).or (if first.key = key then some first else none) := by
      intro first rest
      by_cases own : first.key = key <;> simp [last?, List.find?_append, own]
    rw [last, last]
    cases bound : last? rest key with
    | some =>
      obtain ⟨_, bound', samePrimary⟩ := Option.map_eq_some_iff.mp (ih.trans (by rw [bound, Option.map_some]))
      simp [bound', samePrimary]
    | none =>
      rw [bound, Option.map_none, Option.map_eq_none_iff] at ih
      rw [ih, Option.none_or, Option.none_or, sameKey]
      split
      next own => rw [Option.map_some, Option.map_some, same (own ▸ last?_eq_none_iff.mp bound)]
      · rfl

theorem further (key : String) : lastFurther history' key = lastFurther history key := by
  induction agree with
  | nil => rfl
  | @cons first first' rest rest' sameKey _ same _ ih =>
    rw [lastFurther_cons, lastFurther_cons, ih, sameKey]
    split
    next none =>
      split
      next own => exact same (own ▸ lastFurther_eq_nil_iff.mp none)
      · rfl
    · rfl

theorem putAll : FixBinding.putAll history' = FixBinding.putAll history := by
  have settled : ∀ (history : List FixBinding) (key : String),
      settled? history key = ((last? history key).map (·.primary)).map (⟨key, ·, lastFurther history key⟩) := by
    intro history key
    rw [settled?, Option.map_map]
    refine Option.map_congr fun binding isLast => ?_
    have own : binding.key = key := by simpa using find?_some isLast
    rw [Function.comp_apply, own]
  rw [putAll_eq, putAll_eq, agree.keys]
  congr 1
  funext key
  rw [settled, settled, agree.primary, agree.further]

end

end Agree

end FixBinding

namespace FixTable

/-- What a key stands for: a code, or a part of messages. -/
inductive Source where
  | code
  | message
  deriving DecidableEq

def bindings (table : FixTable) : Source → List FixBinding
  | .code => table.byCode
  | .message => table.byMessage

def bind (table : FixTable) : Source × FixBinding → FixTable
  | (.code, binding) => table.onCode binding.key binding.primary binding.further
  | (.message, binding) => table.onMessage binding.key binding.primary binding.further

/-- The table that is built by binding one key after another. -/
def ofCalls (calls : List (Source × FixBinding)) : FixTable := calls.foldl bind .empty

/-- The bindings among the calls for one source of keys. -/
def history (calls : List (Source × FixBinding)) (source : Source) : List FixBinding :=
  (calls.filter (·.1 = source)).map (·.2)

theorem bindings_ofCalls (calls : List (Source × FixBinding)) (source : Source) :
    (ofCalls calls).bindings source = FixBinding.putAll (history calls source) := by
  induction calls using List.reverseRecOn with
  | nil => cases source <;> rfl
  | append_singleton calls call ih =>
    obtain ⟨own, binding⟩ := call
    have built : ofCalls (calls ++ [(own, binding)]) = (ofCalls calls).bind (own, binding) := by
      rw [ofCalls, foldl_append]
      rfl
    rw [built, history, filter_append, map_append]
    by_cases same : own = source
    · subst same
      have put : ((ofCalls calls).bind (own, binding)).bindings own =
          FixBinding.put ((ofCalls calls).bindings own) binding := by
        cases own <;> rfl
      rw [put, ih, ← FixBinding.putAll_append]
      simp [history]
    · have kept : ((ofCalls calls).bind (own, binding)).bindings source = (ofCalls calls).bindings source := by
        cases own <;> cases source <;> first | exact absurd rfl same | rfl
      rw [kept, ih]
      simp [history, same]

/-- After any sequence of bindings, a key is bound to the primary resolver of its last binding and to the further
resolvers of the last one that gave some. So it has the further resolvers of its last binding if that gave some, or if
no binding of the key did. A key that was never bound has none, and keys stand in the order of their first bindings.
Whatever resolvers the replaced bindings had, the actions are the same. -/
theorem ofCalls_keeps_last (calls : List (Source × FixBinding)) :
    (∀ source, ((ofCalls calls).bindings source).map (·.key) = ((history calls source).map (·.key)).eraseDups) ∧
    (∀ source key, ((ofCalls calls).bindings source).find? (·.key == key) =
      match FixBinding.last? (history calls source) key with
      | none => none
      | some last => some { last with further := FixBinding.lastFurther (history calls source) key }) ∧
    (∀ source key last, FixBinding.last? (history calls source) key = some last →
      (FixBinding.lastFurther (history calls source) key = last.further ↔
        last.further ≠ [] ∨ ∀ binding ∈ history calls source, binding.key = key → binding.further = [])) ∧
    ∀ calls', (∀ source, FixBinding.Agree (history calls source) (history calls' source)) →
      ∀ request, (ofCalls calls').actions request = (ofCalls calls).actions request := by
  refine ⟨fun source => ?_, fun source key => ?_, fun source key last isLast => ?_, fun calls' agree request => ?_⟩
  · rw [bindings_ofCalls, FixBinding.keys_putAll]
  · rw [bindings_ofCalls, FixBinding.find?_putAll, FixBinding.settled?]
    cases FixBinding.last? (history calls source) key <;> rfl
  · constructor
    · intro same
      by_cases empty : last.further = []
      · exact .inr (FixBinding.lastFurther_eq_nil_iff.mp (same.trans empty))
      · exact .inl empty
    · rintro (some | none)
      · exact FixBinding.lastFurther_of_last? isLast some
      · have own : last.key = key := by simpa using find?_some isLast
        have isBinding := mem_reverse.mp (mem_of_find?_eq_some isLast)
        rw [FixBinding.lastFurther_eq_nil_iff.mpr none, none last isBinding own]
  · have same : ofCalls calls' = ofCalls calls := by
      have code := bindings_ofCalls calls' .code
      have message := bindings_ofCalls calls' .message
      rw [(agree _).putAll, ← bindings_ofCalls] at code message
      exact FixTable.mk.injEq .. ▸ ⟨code, message⟩
    rw [same]

end FixTable

end SysYTools
