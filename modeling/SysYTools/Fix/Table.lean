import SysYTools.Fix.Arrays
import SysYTools.Fix.Calls
import SysYTools.Fix.Flow
import SysYTools.Fix.Marks
import SysYTools.Fix.Names

/-!
Which fix answers which notice. Resolvers are bound to codes and to parts of messages. A binding by code
comes first; if its resolver offers nothing, the first part that stands in the message decides.
-/

namespace SysYTools

/-- The resolvers of a key. The further ones are asked only when the primary one offers an action. -/
structure FixBinding where
  key : String
  primary : Resolver
  further : List Resolver

namespace FixBinding

/-- Adds a binding to a list. A key that is bound already keeps its place, and its further resolvers if the
new binding has none. -/
def put (bindings : List FixBinding) (binding : FixBinding) : List FixBinding :=
  match bindings with
  | [] => [binding]
  | old :: rest =>
    if old.key = binding.key then
      let further := if binding.further.isEmpty then old.further else binding.further
      { binding with further } :: rest
    else old :: put rest binding

end FixBinding

structure FixTable where
  byCode : List FixBinding
  byMessage : List FixBinding

namespace FixTable

def empty : FixTable :=
  { byCode := [], byMessage := [] }

def onCode (table : FixTable) (code : String) (primary : Resolver) (further : List Resolver) :
    FixTable :=
  { table with byCode := FixBinding.put table.byCode { key := code, primary, further } }

def onMessage (table : FixTable) (part : String) (primary : Resolver) (further : List Resolver) :
    FixTable :=
  { table with byMessage := FixBinding.put table.byMessage { key := part, primary, further } }

def offer (resolver : Resolver) (request : Request) : Option Action :=
  match resolver request with
  | .ok action => action
  | .error _ => none

def bindingActions (binding : FixBinding) (request : Request) : List Action :=
  match offer binding.primary request with
  | none => []
  | some action => action :: binding.further.filterMap (offer · request)

def codeActions (table : FixTable) (request : Request) : List Action :=
  match request.notice.code with
  | none => []
  | some code =>
    match table.byCode.find? (·.key == code) with
    | none => []
    | some binding => bindingActions binding request

def messageActions (table : FixTable) (request : Request) : List Action :=
  let message := request.notice.message.toList
  match table.byMessage.find? fun binding => Text.hasPart message binding.key.toList with
  | none => []
  | some binding => bindingActions binding request

def actions (table : FixTable) (request : Request) : List Action :=
  match table.codeActions request with
  | [] => table.messageActions request
  | actions => actions

open SysYTools.Fix in
def standard : FixTable :=
  let onCode (table : FixTable) (code : Code) := table.onCode code.name
  let table := onCode .empty .undefinedVariable declareVariable [declareGlobalVariable]
  let table := onCode table .duplicateDeclaration renameVariable []
  let table := onCode table .arraySizeOverflow resizeArray [trimInitializer]
  let table := onCode table .undefinedFunction declareFunction []
  let table := onCode table .duplicateFunction renameFunction []
  let table := onCode table .parameterMismatch adjustArgumentsLater [adjustArguments]
  let table := onCode table .invalidBreakContinue removeJump []
  let table := onCode table .missingReturn addReturnLater [addReturn]
  let table := onCode table .emptyReturn fillReturn []
  let table := onCode table .voidReturnValue dropReturnValue []
  let table := onCode table .voidAssignment keepCall []
  let table := onCode table .typeMismatch reshapeInitializer []
  let table := onCode table .missingSemicolon insertSemicolon []
  let table := onCode table .unmatchedBrackets insertBracket []
  let table := onCode table .unusedVariable removeUnusedVariable [commentOutUnusedVariable]
  let table := table.onMessage "use of undefined variable" declareVariable [declareGlobalVariable]
  let table := table.onMessage "undeclared variable" declareVariable [declareGlobalVariable]
  let table := table.onMessage "cannot redeclare block-scoped variable" renameVariable []
  let table := table.onMessage "more initializer elements than the array size" resizeArray []
  let table := table.onMessage "call to undefined function" declareFunction []
  let table := table.onMessage "is already defined" renameFunction []
  let table := table.onMessage "parameter count mismatch" adjustArgumentsLater [adjustArguments]
  let table := table.onMessage "statement can only be used inside a loop" removeJump []
  let table := table.onMessage "is missing a return statement" addReturnLater [addReturn]
  let table := table.onMessage "must not return empty" fillReturn []
  let table := table.onMessage "void function must not return a value" dropReturnValue []
  let table := table.onMessage "void value cannot be used" keepCall []
  let table := table.onMessage "missing semicolon" insertSemicolon []
  let table := table.onMessage "unmatched bracket" insertBracket []
  table.onMessage "unused variable" removeUnusedVariable [commentOutUnusedVariable]

end FixTable

end SysYTools
