import SysYTools.Repair.Arrays

/-!
Calls in raw text: finding one, and giving it another number of arguments.
-/

namespace SysYTools

namespace Repair

structure CallText where
  start : Nat
  stop : Nat
  callee : Text
  arguments : List Text

def findCall? (text : Text) (offset : Nat) (isWanted : Text → Bool) : Option CallText := do
  let found ← (text.occurrences Text.readCallHead offset).find? (isWanted ·.value)
  let closing ← text.closingIndex? (found.stop - 1)
  return {
    start := found.start
    stop := closing + 1
    callee := found.value
    arguments := (text.slice found.stop closing).splitCommas }

/-- The first `count` items. A negative count leaves out that many items at the end. -/
def takeSigned {α : Type} (items : List α) (count : Int) : List α :=
  if 0 ≤ count then items.take count.toNat else items.take (items.length - count.natAbs)

/-- Exactly `count` arguments: further ones are dropped, and zeros are added where some are missing. -/
def adjustArguments (arguments : List Text) (count : Int) : List Text :=
  takeSigned arguments count ++ List.replicate (count - arguments.length).toNat ['0']

def adjustCallEdit (document : Document) (start : Position) (count : Int) (isWanted : Text → Bool) :
    Option Edit := do
  let call ← findCall? document.text (document.offsetAt start) isWanted
  if call.arguments.length = count then none
  else
    return {
      range := document.rangeOf call.start call.stop
      newText := call.callee ++ '(' :: joinCommas (adjustArguments call.arguments count) ++ [')'] }

end Repair

end SysYTools
