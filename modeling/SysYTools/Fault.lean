/-!
Why an operation on outside data stopped. Syntax errors and violated rules of a program are not faults:
they are answers, and have their own type. A fault is a piece of data that has the wrong form.
-/

namespace SysYTools

inductive Coordinate where
  | line
  | character
  deriving DecidableEq, Repr

/-- The largest line or character that a position can have. -/
def Coordinate.limit : Int := 2147483647

def Coordinate.name : Coordinate → String
  | .line => "line"
  | .character => "character"

inductive Fault where
  | notInteger
  /-- A decimal number has more digits than are converted. -/
  | tooManyDigits (digits : Nat)
  /-- A coordinate of a position is negative or too large. -/
  | outOfRange (coordinate : Coordinate) (value : Int)
  | missingField (name : String)
  /-- A value has another kind than the operation needs. -/
  | wrongKind
  /-- A value that should name a document is no text. -/
  | notName
  /-- A word is not one of those that can stand at its place. -/
  | unknownWord (word : String)
  | missingArgument
  | unknownCommand (name : String)
  | noSuchKind (name : String)
  /-- A rule is tried at a node that has not what the rule looks at. -/
  | misplacedRule
  /-- A pattern of a message table is malformed. -/
  | badPattern
  /-- The outermost scope cannot be closed. -/
  | lastScope
  | badSettings
  /-- A section of the settings is not a table. -/
  | notTable
  /-- No settings file stands in a directory or above it. -/
  | noSettings
  | notUtf8
  | isDirectory
  | noSuchFile
  | noSuchItem
  deriving DecidableEq, Repr

/-- The most decimal digits that are converted to a number. -/
def digitLimit : Nat := 4300

def Fault.message : Fault → String
  | .notInteger => "not an integer"
  | .tooManyDigits digits =>
    s!"Exceeds the limit ({digitLimit} digits) for integer string conversion: " ++
      s!"value has {digits} digits; use sys.set_int_max_str_digits() to increase the limit"
  | .outOfRange coordinate value =>
    s!"Position.{coordinate.name} should be in range [0:{Coordinate.limit}], but was {value}."
  | .missingField name => s!"no field '{name}'"
  | .wrongKind => "value of the wrong kind"
  | .notName => "no name of a document"
  | .unknownWord word => s!"unknown word '{word}'"
  | .missingArgument => "not enough arguments"
  | .unknownCommand name => s!"unknown command: {name}"
  | .noSuchKind name => s!"no kind of node is called '{name}'"
  | .misplacedRule => "rule tried at a node of the wrong kind"
  | .badPattern => "malformed pattern"
  | .lastScope => "cannot pop global scope"
  | .badSettings => "malformed settings file"
  | .notTable => "section is not a table"
  | .noSettings => "No sysy.toml found in any parent directory"
  | .notUtf8 => "not UTF-8 text"
  | .isDirectory => "is a directory"
  | .noSuchFile => "no such file"
  | .noSuchItem => "no such item"

end SysYTools
