import SysYTools.Span
import SysYTools.Value

/-!
What can be wrong with a program. A problem is the cause; its message, code and payload follow from it.
A report says where the problem is.
-/

namespace SysYTools

inductive Severity where
  | error
  | warning
  | hint
  deriving DecidableEq, Repr

namespace Severity

def name : Severity → String
  | .error => "error"
  | .warning => "warning"
  | .hint => "hint"

def all : List Severity := [.error, .warning, .hint]

def ofName? (name : String) : Option Severity := all.find? (·.name == name)

end Severity

/-- The stable codes by which tools know the problems. -/
inductive Code where
  | undefinedVariable | duplicateDeclaration | arraySizeOverflow
  | undefinedFunction | duplicateFunction | parameterMismatch
  | invalidBreakContinue | missingReturn | emptyReturn | voidReturnValue | voidAssignment
  | typeMismatch | missingSemicolon | unmatchedBrackets | unusedVariable | syntaxError
  deriving DecidableEq, Repr

namespace Code

def name : Code → String
  | .undefinedVariable => "undefined-variable"
  | .duplicateDeclaration => "duplicate-declaration"
  | .arraySizeOverflow => "array-size-overflow"
  | .undefinedFunction => "undefined-function"
  | .duplicateFunction => "duplicate-function"
  | .parameterMismatch => "parameter-mismatch"
  | .invalidBreakContinue => "invalid-break-continue"
  | .missingReturn => "missing-return"
  | .emptyReturn => "empty-return"
  | .voidReturnValue => "void-return-value"
  | .voidAssignment => "void-assignment"
  | .typeMismatch => "type-mismatch"
  | .missingSemicolon => "missing-semicolon"
  | .unmatchedBrackets => "unmatched-brackets"
  | .unusedVariable => "unused-variable"
  | .syntaxError => "syntax-error"

def all : List Code :=
  [.undefinedVariable, .duplicateDeclaration, .arraySizeOverflow, .undefinedFunction,
    .duplicateFunction, .parameterMismatch, .invalidBreakContinue, .missingReturn, .emptyReturn,
    .voidReturnValue, .voidAssignment, .typeMismatch, .missingSemicolon, .unmatchedBrackets,
    .unusedVariable, .syntaxError]

def ofName? (name : String) : Option Code := all.find? (·.name == name)

end Code

inductive Category where
  | variable | function | array | type | control | other
  deriving DecidableEq, Repr

namespace Category

def name : Category → String
  | .variable => "VAR"
  | .function => "FUNC"
  | .array => "ARR"
  | .type => "TYPE"
  | .control => "CTRL"
  | .other => "OTHER"

def all : List Category := [.variable, .function, .array, .type, .control, .other]

def ofName? (name : String) : Option Category := all.find? (·.name == name)

end Category

/-- What the grammar wants at a place. -/
inductive Expectation where
  | variableName | functionName | parameterName | baseType | item | openParen | openBrace
  deriving DecidableEq, Repr

def Expectation.describe : Expectation → String
  | .variableName => "a variable name"
  | .functionName => "a function name"
  | .parameterName => "a parameter name"
  | .baseType => "'int' or 'float'"
  | .item => "a declaration or function definition"
  | .openParen => "'('"
  | .openBrace => "'\x7b'"

inductive Jump where
  | breakLoop
  | continueLoop
  deriving DecidableEq, Repr

def Jump.keyword : Jump → String
  | .breakLoop => "break"
  | .continueLoop => "continue"

inductive Problem where
  | unterminatedComment
  | hexWithoutDigits
  | invalidOctal (written : String)
  | unexpectedCharacter (character : Char)
  | expected (expectation : Expectation) (got : String)
  | voidVariable
  | unexpectedInExpression (got : String)
  | badAssignmentTarget
  | missingSemicolon (after : String)
  | missingBracket (bracket : Char) (after : String)
  | duplicateDeclaration (name : String)
  | undefinedVariable (name : String)
  | arrayOverflow (name : String) (declared : Int) (actual : Nat)
  | initializerShape (name : String) (wantsArray : Bool)
  | unusedVariable (name : String)
  | undefinedFunction (name : String)
  | argumentCount (name : String) (wanted given : Nat)
  | voidValue (name : String)
  | missingReturn (name returnType : String)
  | emptyReturn (name returnType : String)
  | voidReturnValue (name : String)
  | duplicateFunction (name : String)
  | strayJump (jump : Jump)
  deriving DecidableEq, Repr

namespace Problem

def shapeName (wantsArray : Bool) : String := if wantsArray then "array" else "scalar"

def message : Problem → String
  | .unterminatedComment => "unterminated block comment"
  | .hexWithoutDigits => "hexadecimal literal has no digits"
  | .invalidOctal written => s!"invalid octal literal '{written}'"
  | .unexpectedCharacter character => s!"unexpected character '{character}'"
  | .expected expectation got => s!"expected {expectation.describe}, got {got}"
  | .voidVariable => "variables cannot have type 'void'"
  | .unexpectedInExpression got => s!"unexpected {got} in expression"
  | .badAssignmentTarget => "left side of assignment must be a variable"
  | .missingSemicolon after => s!"missing semicolon after '{after}'."
  | .missingBracket bracket after => s!"unmatched bracket: missing '{bracket}' after '{after}'."
  | .duplicateDeclaration name => s!"cannot redeclare block-scoped variable '{name}'."
  | .undefinedVariable name => s!"use of undefined variable '{name}'."
  | .arrayOverflow name _ _ => s!"array {name} has more initializer elements than the array size."
  | .initializerShape name wantsArray =>
    s!"type mismatch: variable '{name}' expects a {shapeName wantsArray} initializer."
  | .unusedVariable name => s!"unused variable '{name}'."
  | .undefinedFunction name => s!"call to undefined function '{name}'."
  | .argumentCount _ wanted given =>
    s!"parameter count mismatch. Expected {wanted} arguments, but the call passes {given}."
  | .voidValue _ => "void value cannot be used in an expression or assignment."
  | .missingReturn _ returnType => s!"function with return type {returnType} is missing a return statement."
  | .emptyReturn _ returnType => s!"function with return type {returnType} must not return empty."
  | .voidReturnValue _ => "void function must not return a value."
  | .duplicateFunction name => s!"function name '{name}' is already defined."
  | .strayJump jump => s!"'{jump.keyword}' statement can only be used inside a loop."

def code : Problem → Code
  | .unterminatedComment | .hexWithoutDigits | .invalidOctal _ | .unexpectedCharacter _
  | .expected _ _ | .voidVariable | .unexpectedInExpression _ | .badAssignmentTarget => .syntaxError
  | .missingSemicolon _ => .missingSemicolon
  | .missingBracket _ _ => .unmatchedBrackets
  | .duplicateDeclaration _ => .duplicateDeclaration
  | .undefinedVariable _ => .undefinedVariable
  | .arrayOverflow _ _ _ => .arraySizeOverflow
  | .initializerShape _ _ => .typeMismatch
  | .unusedVariable _ => .unusedVariable
  | .undefinedFunction _ => .undefinedFunction
  | .argumentCount _ _ _ => .parameterMismatch
  | .voidValue _ => .voidAssignment
  | .missingReturn _ _ => .missingReturn
  | .emptyReturn _ _ => .emptyReturn
  | .voidReturnValue _ => .voidReturnValue
  | .duplicateFunction _ => .duplicateFunction
  | .strayJump _ => .invalidBreakContinue

def severity : Problem → Severity
  | .unusedVariable _ => .warning
  | _ => .error

/-- The category of a violated rule. Problems of the grammar have none of their own. -/
def category : Problem → Category
  | .duplicateDeclaration _ | .undefinedVariable _ | .unusedVariable _ => .variable
  | .arrayOverflow _ _ _ => .array
  | .initializerShape _ _ | .voidValue _ => .type
  | .undefinedFunction _ | .argumentCount _ _ _ | .missingReturn _ _ | .emptyReturn _ _
  | .voidReturnValue _ | .duplicateFunction _ => .function
  | .strayJump _ => .control
  | _ => .other

/-- The facts of a problem that a repair needs. -/
def payload : Problem → List (String × Value)
  | .missingBracket bracket _ => [("expected", .text (String.singleton bracket))]
  | .duplicateDeclaration name | .undefinedVariable name | .unusedVariable name => [("variableName", .text name)]
  | .arrayOverflow name declared actual =>
    [("arrayName", .text name), ("declaredSize", .int declared), ("actualSize", .int actual)]
  | .initializerShape name wantsArray => [("variableName", .text name), ("shape", .text (shapeName wantsArray))]
  | .undefinedFunction name | .voidValue name | .duplicateFunction name => [("functionName", .text name)]
  | .argumentCount name wanted given =>
    [("functionName", .text name), ("expectedCount", .int wanted), ("actualCount", .int given)]
  | .missingReturn name returnType | .emptyReturn name returnType =>
    [("functionName", .text name), ("returnType", .text returnType)]
  | .voidReturnValue name => [("functionName", .text name), ("returnType", .text "void")]
  | .strayJump jump => [("keyword", .text jump.keyword)]
  | _ => []

end Problem

structure Report where
  problem : Problem
  span : Span
  deriving DecidableEq, Repr

end SysYTools
