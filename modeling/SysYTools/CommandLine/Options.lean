import SysYTools.Value

/-!
The words of a command line. Options start with a dash; a word of two dashes ends them. An option that
takes a value finds it after an equals sign or in the next word. Options of one dash and one letter take
no value and can be joined.
-/

namespace SysYTools

inductive UsageError where
  | noSuchOption (name : String)
  | needsValue (option : String)
  | takesNoValue (option : String)
  | noSuchCommand (name : String)
  | missingCommand
  | missingArgument (name : String)
  | extraArguments (words : List String)
  /-- An argument names something that is not there. -/
  | notFound (argument kind path : String)
  /-- An argument names a directory where a file is needed. -/
  | isDirectory (argument kind path : String)
  | notPlace
  deriving DecidableEq, Repr

def UsageError.message : UsageError → String
  | .noSuchOption name => s!"No such option {Value.quote name}."
  | .needsValue option => s!"Option {Value.quote option} requires an argument."
  | .takesNoValue option => s!"Option {Value.quote option} does not take a value."
  | .noSuchCommand name => s!"No such command {Value.quote name}."
  | .missingCommand => "Missing command."
  | .missingArgument name => s!"Missing argument '{name}'."
  | .extraArguments words =>
    let noun := if words.length = 1 then "argument" else "arguments"
    let joined := " ".intercalate words
    s!"Got unexpected extra {noun} ({joined})"
  | .notFound argument kind path => s!"Invalid value for '{argument}': {kind} {Value.quote path} does not exist."
  | .isDirectory argument kind path => s!"Invalid value for '{argument}': {kind} {Value.quote path} is a directory."
  | .notPlace => "Invalid value for --at: expected LINE:COL"

namespace CommandLine

structure OptionForm where
  name : String
  short : Option Char
  takesValue : Bool

/-- The options and the other words of a command line. Options without a value have an empty one. -/
structure Words where
  options : List (String × String)
  operands : List String

namespace Words

def addOperand (words : Words) (operand : String) : Words :=
  { words with operands := operand :: words.operands }

def addOption (words : Words) (name value : String) : Words :=
  { words with options := (name, value) :: words.options }

def hasOption (words : Words) (name : String) : Bool := words.options.any (·.1 == name)

def value? (words : Words) (name : String) : Option String := words.options.reverse.lookup name

end Words

def isOption : List Char → Bool
  | '-' :: _ :: _ => true
  | _ => false

/-- The name of a long option, and the value after its equals sign. -/
def splitValue (word : String) : String × Option String :=
  let name := word.toList.takeWhile (· != '=')
  match word.toList.dropWhile (· != '=') with
  | [] => (word, none)
  | _ :: value => (String.ofList name, some (String.ofList value))

def readShort (forms : List OptionForm) : List Char → Except UsageError (List String)
  | [] => .ok []
  | letter :: rest =>
    match forms.find? (·.short == some letter) with
    | none => .error (.noSuchOption (String.ofList ['-', letter]))
    | some form => do return form.name :: (← readShort forms rest)

/-- Reads the words of a command line. If operands end the options, the words after the first operand are
operands too. -/
def readWords (forms : List OptionForm) (operandsEndOptions : Bool) :
    List String → Except UsageError Words
  | [] => .ok { options := [], operands := [] }
  | word :: rest =>
    if word = "--" then .ok { options := [], operands := rest }
    else if isOption word.toList then
      let (name, value) := splitValue word
      match forms.find? (·.name == name), value with
      | some { name, takesValue := true, .. }, some value => do
        return (← readWords forms operandsEndOptions rest).addOption name value
      | some { name, takesValue := true, .. }, none =>
        match rest with
        | [] => .error (.needsValue name)
        | value :: rest => do return (← readWords forms operandsEndOptions rest).addOption name value
      | some { name, takesValue := false, .. }, some _ => .error (.takesNoValue name)
      | some { name, takesValue := false, .. }, none => do
        return (← readWords forms operandsEndOptions rest).addOption name ""
      | none, _ =>
        match word.toList with
        | '-' :: '-' :: _ => .error (.noSuchOption name)
        | letters => do
          let names ← readShort forms (letters.drop 1)
          return names.foldr (fun name words => words.addOption name "") (← readWords forms operandsEndOptions rest)
    else if operandsEndOptions then .ok { options := [], operands := word :: rest }
    else do return (← readWords forms operandsEndOptions rest).addOperand word

end CommandLine

end SysYTools
