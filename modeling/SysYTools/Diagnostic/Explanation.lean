import SysYTools.Diagnostic.Basic
import SysYTools.Text.Pattern

/-!
Explanations of messages. A table gives an explanation, a suggestion and a category for messages that
contain one of its keys. A key between double quotes also stands for all messages in which the pattern
between the quotes occurs. All keys are tried as plain text before any is tried as a pattern.
-/

namespace SysYTools

structure Explanation where
  details : String
  suggestion : String
  category : Category
  deriving DecidableEq, Repr

/-- Keys with their explanations, in the order in which they are tried. -/
structure ExplanationTable where
  entries : List (String × Explanation)
  deriving DecidableEq, Repr

namespace ExplanationTable

/-- Gives a key an explanation. A key that the table has keeps its place. -/
def put (table : ExplanationTable) (key : String) (explanation : Explanation) : ExplanationTable :=
  if table.entries.any (·.1 == key) then
    { entries := table.entries.map fun entry => if entry.1 == key then (key, explanation) else entry }
  else
    { entries := table.entries ++ [(key, explanation)] }

/-- The pattern that a key writes, if it stands between double quotes. -/
def patternText? (key : String) : Option Text :=
  match key.toList with
  | '"' :: rest =>
    match rest.reverse with
    | '"' :: reversed => some reversed.reverse
    | _ => none
  | _ => none

def findPlain? (table : ExplanationTable) (text : Text) : Option Explanation :=
  (table.entries.find? fun entry => text.hasPart entry.1.toList).map (·.2)

/-- The first explanation whose pattern occurs in a text. A malformed pattern is noticed when its turn
comes. -/
def findPattern? (text : Text) : List (String × Explanation) → Except Fault (Option Explanation)
  | [] => .ok none
  | (key, explanation) :: rest =>
    match patternText? key with
    | none => findPattern? text rest
    | some written => do
      let pattern ← Pattern.ofText written
      if pattern.occursIn text then return some explanation else findPattern? text rest

def find (table : ExplanationTable) (message : String) : Except Fault (Option Explanation) :=
  match table.findPlain? message.toList with
  | some explanation => .ok (some explanation)
  | none => findPattern? message.toList table.entries

def unknownError : String := "unknown error"

def enrich (table : ExplanationTable) (message : String) : Except Fault String :=
  if message.isEmpty then .ok unknownError
  else do
    match ← table.find message with
    | none => return message
    | some found => return s!"{message}\n\nDetails: {found.details}\nSuggestion: {found.suggestion}"

/-- A message with its explanation, or as it is if the table is malformed. -/
def enrichSafely (table : ExplanationTable) (message : String) : String :=
  match table.enrich message with
  | .ok enriched => enriched
  | .error _ => if message.isEmpty then unknownError else message

/-- The category of a message. A message that says nothing has none. -/
def categoryOf (table : ExplanationTable) (message : String) : Except Fault (Option Category) :=
  if message.isEmpty then .ok none
  else do
    match ← table.find message with
    | none => return some .other
    | some found => return some found.category

def categorySafely (table : ExplanationTable) (message : String) : Category :=
  match table.categoryOf message with
  | .ok (some category) => category
  | _ => .other

def standard : ExplanationTable where
  entries := [
    ("cannot redeclare block-scoped variable", {
      details := "Within one declaration each variable name can only be declared once. " ++
        "Use a different name or declare it in another scope."
      suggestion := "use a different variable name or remove the duplicate declaration"
      category := .variable }),
    ("use of undefined variable", {
      details := "The variable is not declared in the current scope. " ++
        "Variables must be declared before they are used."
      suggestion := "declare the variable before using it"
      category := .variable }),
    ("undeclared variable", {
      details := "The name refers to a variable that does not exist in the current scope."
      suggestion := "declare the variable or check the spelling of its name"
      category := .variable }),
    ("unused variable", {
      details := "The variable is declared but its value is never read."
      suggestion := "remove the declaration or use the variable"
      category := .variable }),
    ("array has more initializer elements than the array size", {
      details := "An initializer list cannot hold more elements than the declared array size."
      suggestion := "increase the array size or remove initializer elements"
      category := .array }),
    ("call to undefined function", {
      details := "The called function is not defined. Define it before calling it."
      suggestion := "define the function or check the spelling of its name"
      category := .function }),
    ("parameter count mismatch", {
      details := "The number of arguments at the call site differs from the number of " ++
        "parameters in the function definition."
      suggestion := "adjust the arguments to match the function definition"
      category := .function }),
    ("'break' statement can only be used inside a loop", {
      details := "A break statement is only valid inside a while loop."
      suggestion := "remove the break statement or move it into a loop"
      category := .control }),
    ("'continue' statement can only be used inside a loop", {
      details := "A continue statement is only valid inside a while loop."
      suggestion := "remove the continue statement or move it into a loop"
      category := .control }),
    ("void function must not return a value", {
      details := "A function declared void cannot return a value."
      suggestion := "remove the expression from the return statement or use 'return;'"
      category := .function }),
    ("void value cannot be used in an expression or assignment", {
      details := "The result of a void function cannot be assigned or used in an expression."
      suggestion := "call a function that returns a value or do not use the result"
      category := .type }),
    ("type mismatch", {
      details := "The initializer does not have the shape the declaration expects."
      suggestion := "change the initializer or the declaration"
      category := .type }),
    ("missing semicolon", {
      details := "Every declaration and simple statement must end with a semicolon."
      suggestion := "add the missing ';'"
      category := .other }),
    ("unmatched bracket", {
      details := "An opening bracket has no matching closing bracket, or the other way round."
      suggestion := "add the missing bracket"
      category := .other }),
    ("\"array .* has more initializer elements than the array size\"", {
      details := "An initializer list cannot hold more elements than the declared array size."
      suggestion := "increase the array size or remove initializer elements"
      category := .array }),
    ("\"function name .* is already defined\"", {
      details := "Each function name can only be defined once per program."
      suggestion := "use a different function name or remove the duplicate definition"
      category := .function }),
    ("\"function with return type \\w+ is missing a return statement\"", {
      details := "A function with a non-void return type must contain a return " ++ "statement with a value."
      suggestion := "add a return statement with a suitable value"
      category := .function }),
    ("\"function with return type \\w+ must not return empty\"", {
      details := "A function with a non-void return type must return a value."
      suggestion := "add a value to the return statement"
      category := .function })]

end ExplanationTable

end SysYTools
