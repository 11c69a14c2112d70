import SysYTools.Fault

/-!
Positions and ranges as an editor counts them: lines and characters start at zero, and a range ends
before its stop.
-/

namespace SysYTools

structure Position where
  line : Nat
  character : Nat
  deriving DecidableEq, Repr

namespace Position

/-- Positions follow each other by line, then by character. -/
def le (left right : Position) : Bool :=
  left.line < right.line || (left.line == right.line && left.character ≤ right.character)

def checked (coordinate : Coordinate) (value : Int) : Except Fault Nat :=
  if 0 ≤ value ∧ value ≤ Coordinate.limit then .ok value.toNat
  else .error (.outOfRange coordinate value)

/-- The position with the given coordinates. The line is checked before the character. -/
def ofInts (line character : Int) : Except Fault Position := do
  let line ← checked .line line
  let character ← checked .character character
  return { line, character }

end Position

structure Range where
  start : Position
  stop : Position
  deriving DecidableEq, Repr

namespace Range

def point (position : Position) : Range :=
  { start := position, stop := position }

def origin : Range := point { line := 0, character := 0 }

/-- The range with the given coordinates. The start is checked before the stop. -/
def ofInts (startLine startCharacter stopLine stopCharacter : Int) : Except Fault Range := do
  let start ← Position.ofInts startLine startCharacter
  let stop ← Position.ofInts stopLine stopCharacter
  return { start, stop }

def line (number : Nat) : Except Fault Range := Range.ofInts number 0 (number + 1) 0

/-- Whether two ranges share a place. Ranges that touch do. -/
def overlaps (left right : Range) : Bool := left.start.le right.stop && right.start.le left.stop

end Range

end SysYTools
