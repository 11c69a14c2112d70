import SysYTools.Value

/-!
Tables under construction. A settings document fills its tables from several places, and each table may be
defined only once: by a header, or by the dotted keys of one section. A table therefore knows from which
section on it is closed.
-/

namespace SysYTools

namespace Toml

abbrev Key := List String

inductive Item where
  | value (value : Value)
  | table (closedFrom : Option Nat) (entries : List (String × Item))
  /-- An array of tables. Only the last one can still be filled. -/
  | tables (finished : List (List (String × Item))) (last : List (String × Item))

abbrev Entries := List (String × Item)

namespace Entries

def put (entries : Entries) (name : String) (item : Item) : Entries :=
  match entries with
  | [] => [(name, item)]
  | (other, old) :: rest => if other = name then (name, item) :: rest else (other, old) :: put rest name item

def isClosed (closedFrom : Option Nat) (number : Nat) : Bool := closedFrom.any (· ≤ number)

/-- Goes down a key and changes the entries at its end. Tables on the way are made where there are
none. -/
def modifyAt (entries : Entries) (key : Key) (change : Entries → Option Entries) : Option Entries :=
  match key with
  | [] => change entries
  | name :: rest => do
    match entries.lookup name with
    | none => return entries.put name (.table none (← modifyAt [] rest change))
    | some (.table closedFrom inner) => return entries.put name (.table closedFrom (← modifyAt inner rest change))
    | some (.tables finished last) => return entries.put name (.tables finished (← modifyAt last rest change))
    | some (.value _) => none

def openTable (entries : Entries) (number : Nat) (name : String) : Option Entries :=
  match entries.lookup name with
  | none => some (entries.put name (.table (some number) []))
  | some (.table closedFrom inner) =>
    if isClosed closedFrom number then none else some (entries.put name (.table (some number) inner))
  | some _ => none

def addTable (entries : Entries) (name : String) : Option Entries :=
  match entries.lookup name with
  | none => some (entries.put name (.tables [] []))
  | some (.tables finished last) => some (entries.put name (.tables (finished ++ [last]) []))
  | some _ => none

/-- Gives a value to a dotted key in a section. The tables on the way are closed after that section. -/
def putValue (entries : Entries) (number : Nat) (value : Value) : Key → Option Entries
  | [] => none
  | [name] => if (entries.lookup name).isSome then none else some (entries.put name (.value value))
  | name :: rest => do
    match entries.lookup name with
    | none => return entries.put name (.table (some (number + 1)) (← putValue [] number value rest))
    | some (.table closedFrom inner) =>
      if isClosed closedFrom number then none
      else return entries.put name (.table (some (number + 1)) (← putValue inner number value rest))
    | some _ => none

end Entries

mutual

def Item.toValue : Item → Value
  | .value value => value
  | .table _ entries => .record (Entries.toFields entries)
  | .tables finished last => .list (Entries.toRecords finished ++ [.record (Entries.toFields last)])

def Entries.toFields : List (String × Item) → List (String × Value)
  | [] => []
  | (name, item) :: rest => (name, item.toValue) :: Entries.toFields rest

def Entries.toRecords : List (List (String × Item)) → List Value
  | [] => []
  | entries :: rest => .record (Entries.toFields entries) :: Entries.toRecords rest

end

end Toml

end SysYTools
