import SysYTools.Fault

/-!
Indexes as requests give them. An index below zero counts from the end of a list.
-/

namespace SysYTools

namespace Index

/-- The number of items before an index. An index before the first item stands for the first one. -/
def before (length : Nat) (index : Int) : Nat := (if index < 0 then index + length else index).toNat

def get {α : Type} (items : List α) (index : Int) : Except Fault α :=
  let item? := if index < -items.length then none else items[before items.length index]?
  match item? with
  | some item => .ok item
  | none => .error .noSuchItem

end Index

end SysYTools
