import SysYTools.Problem
import SysYTools.Tree.Basic

/-!
Reading a program from its tokens, by recursive descent for declarations and statements and by binding
powers for expressions.

A step takes the tokens that are left and ends in one of three ways. It may accept, which does not mean
that it found no problem: a missing semicolon or closing bracket is reported and read as if it were
there. It may reject, and then the nearest list of items skips to its next item. Or its fuel may run
out. The fuel of a whole program is a multiple of the number of tokens, which no program uses up.
-/

namespace SysYTools

namespace UnaryOp

def ofKind? : TokenKind → Option UnaryOp
  | .plus => some .plus
  | .minus => some .minus
  | .bang => some .not
  | _ => none

/-- The operand of a unary operator takes no binary operator with it. -/
def power : Nat := 13

end UnaryOp

namespace BinaryOp

def ofKind? : TokenKind → Option BinaryOp
  | .or => some .or
  | .and => some .and
  | .equal => some .equal
  | .notEqual => some .notEqual
  | .less => some .less
  | .greater => some .greater
  | .lessEqual => some .lessEqual
  | .greaterEqual => some .greaterEqual
  | .plus => some .add
  | .minus => some .subtract
  | .star => some .multiply
  | .slash => some .divide
  | .percent => some .remainder
  | _ => none

def leftPower (op : BinaryOp) : Nat := 2 * op.level - 1

/-- The power with which an operator holds its right operand. It is higher than the left one, so that
operators of one level group to the left. -/
def rightPower (op : BinaryOp) : Nat := 2 * op.level

end BinaryOp

def BaseType.ofKind? : TokenKind → Option BaseType
  | .intKeyword => some .int
  | .floatKeyword => some .float
  | _ => none

def ReturnType.ofKind? : TokenKind → Option ReturnType
  | .voidKeyword => some .void
  | kind => (BaseType.ofKind? kind).map .value

namespace Parser

/-- The tokens that are left, the last token taken, and the problems found so far. The last token of all
is never taken. -/
structure State where
  previous : Option Token
  current : Token
  rest : List Token
  reports : List Report

inductive Outcome (α : Type) where
  | accept (value : α) (state : State)
  | reject (state : State)
  | exhausted

def Step (α : Type) : Type := State → Outcome α

namespace Step

variable {α β : Type}

def accept (value : α) : Step α := fun state => .accept value state

def reject : Step α := fun state => .reject state

def exhausted : Step α := fun _ => .exhausted

def andThen (first : Step α) (second : α → Step β) : Step β :=
  fun state =>
    match first state with
    | .accept value next => second value next
    | .reject next => .reject next
    | .exhausted => .exhausted

instance : Monad Step where
  pure := accept
  bind := andThen

/-- A rejected step gives no value, and parsing goes on where it stopped. -/
def attempt (step : Step α) : Step (Option α) :=
  fun state =>
    match step state with
    | .accept value next => .accept (some value) next
    | .reject next => .accept none next
    | .exhausted => .exhausted

end Step

/-! ## Tokens -/

namespace State

/-- The token before the current one. At the start it is the current one. -/
def last (state : State) : Token := state.previous.getD state.current

def advance (state : State) : State :=
  match state.rest with
  | [] => state
  | next :: rest => { state with previous := some state.current, current := next, rest }

def report (state : State) (problem : Problem) (span : Span) : State :=
  { state with reports := state.reports ++ [{ problem, span }] }

def kindAhead (state : State) (distance : Nat) : TokenKind :=
  ((state.current :: state.rest).drop distance |>.headD
    ((state.current :: state.rest).getLast (List.cons_ne_nil _ _))).kind

/-- Skips to the end of a statement: past a semicolon, or up to a closing brace. A closing brace that
belongs to no block is skipped as well. -/
def skipItem (outside : Bool) (state : State) : State := go state.rest state
where
  go : List Token → State → State
  | [], state => state
  | _ :: rest, state =>
    match state.current.kind with
    | .endOfInput => state
    | .semicolon => state.advance
    | .rightBrace => if outside then state.advance else state
    | _ => go rest state.advance

end State

def current : Step Token := fun state => .accept state.current state

def sees (kind : TokenKind) : Step Bool := fun state => .accept (state.current.kind == kind) state

def kindAhead (distance : Nat) : Step TokenKind := fun state => .accept (state.kindAhead distance) state

def take : Step Token := fun state => .accept state.current state.advance

def report (problem : Problem) (span : Span) : Step Unit := fun state => .accept () (state.report problem span)

def skipItem (outside : Bool) : Step Unit := fun state => .accept () (state.skipItem outside)

def fail {α : Type} (problem : Problem) (span : Span) : Step α := do
  report problem span
  Step.reject

def expect (kind : TokenKind) (expectation : Expectation) : Step Token := do
  let token ← current
  if token.kind = kind then take else fail (.expected expectation token.describe) token.span

/-- Takes a token of a kind, or reports a problem about the token before. Its span, or the one of the
token before, is the end of what has been read. -/
def close (kind : TokenKind) (problem : String → Problem) : Step Span :=
  fun state =>
    if state.current.kind = kind then .accept state.current.span state.advance
    else .accept state.last.span (state.report (problem state.last.value) state.last.span)

def semicolon : Step Span := close .semicolon .missingSemicolon

def closeParen : Step Span := close .rightParen (.missingBracket ')')

def closeBracket : Step Span := close .rightBracket (.missingBracket ']')

def closeBrace : Step Span := close .rightBrace (.missingBracket '\x7d')

/-- The parenthesis after the keyword of a branch or a loop, which may be missing. -/
def openParen (keyword : String) : Step Unit := do
  let token ← current
  if token.kind = .leftParen then
    let _ ← take
  else
    report (.missingBracket '(' keyword) token.span

/-! ## Expressions -/

mutual

/-- An expression whose operators hold their left operands at least with `power`. -/
def expression (fuel power : Nat) : Step Expr :=
  match fuel with
  | 0 => .exhausted
  | fuel + 1 => do
    let left ← operand fuel
    operators fuel power left

def operators (fuel power : Nat) (left : Expr) : Step Expr :=
  match fuel with
  | 0 => .exhausted
  | fuel + 1 => do
    let token ← current
    match BinaryOp.ofKind? token.kind with
    | none => return left
    | some op =>
      if op.leftPower < power then return left
      else
        let _ ← take
        let right ← expression fuel op.rightPower
        operators fuel power (.binary left op right (left.span.through right.span))

def operand (fuel : Nat) : Step Expr :=
  match fuel with
  | 0 => .exhausted
  | fuel + 1 => do
    let token ← current
    match UnaryOp.ofKind? token.kind with
    | some op =>
      let _ ← take
      let value ← expression fuel UnaryOp.power
      return .unary op value (token.span.through value.span)
    | none =>
      match token.kind with
      | .integerLiteral =>
        let _ ← take
        return .intLit token.value token.span
      | .floatLiteral =>
        let _ ← take
        return .floatLit token.value token.span
      | .leftParen =>
        let _ ← take
        let value ← expression fuel 0
        let _ ← closeParen
        return value
      | .identifier =>
        let _ ← take
        let reference : Reference := { name := token.value, span := token.span }
        if ← sees .leftParen then
          let _ ← take
          let arguments ← if ← sees .rightParen then pure [] else expressionList fuel
          let stop ← closeParen
          return .call reference arguments (token.span.through stop)
        else
          let (indices, stop) ← indexList fuel token.span
          return .lval reference indices (token.span.through stop)
      | _ => fail (.unexpectedInExpression token.describe) token.span

def expressionList (fuel : Nat) : Step (List Expr) :=
  match fuel with
  | 0 => .exhausted
  | fuel + 1 => do
    let first ← expression fuel 0
    if ← sees .comma then
      let _ ← take
      return first :: (← expressionList fuel)
    else
      return [first]

def indexList (fuel : Nat) (stop : Span) : Step (List Expr × Span) :=
  match fuel with
  | 0 => .exhausted
  | fuel + 1 => do
    if ← sees .leftBracket then
      let _ ← take
      let index ← expression fuel 0
      let stop ← closeBracket
      let (more, stop) ← indexList fuel stop
      return (index :: more, stop)
    else
      return ([], stop)

end

/-! ## Declarations -/

mutual

def initVal (fuel : Nat) : Step InitVal :=
  match fuel with
  | 0 => .exhausted
  | fuel + 1 => do
    if ← sees .leftBrace then
      let first ← take
      let elements ← if ← sees .rightBrace then pure [] else initValList fuel
      let stop ← closeBrace
      return .list elements (first.span.through stop)
    else
      return .expr (← expression fuel 0)

def initValList (fuel : Nat) : Step (List InitVal) :=
  match fuel with
  | 0 => .exhausted
  | fuel + 1 => do
    let first ← initVal fuel
    if ← sees .comma then
      let _ ← take
      return first :: (← initValList fuel)
    else
      return [first]

end

def varDef (fuel : Nat) : Step VarDef := do
  let name ← expect .identifier .variableName
  let (dims, stop) ← indexList fuel name.span
  if ← sees .assign then
    let _ ← take
    let init ← initVal fuel
    return {
      name := name.value, dims, init := some init
      span := name.span.through init.span, nameSpan := name.span }
  else
    return {
      name := name.value, dims, init := none
      span := name.span.through stop, nameSpan := name.span }

def varDefList (fuel : Nat) : Step (List VarDef) :=
  match fuel with
  | 0 => .exhausted
  | fuel + 1 => do
    let first ← varDef fuel
    if ← sees .comma then
      let _ ← take
      return first :: (← varDefList fuel)
    else
      return [first]

def baseType : Step (BaseType × Token) := do
  let token ← current
  match BaseType.ofKind? token.kind with
  | some type =>
    let _ ← take
    return (type, token)
  | none => fail (.expected .baseType token.describe) token.span

def decl (fuel : Nat) : Step Decl := do
  let start ← current
  let isConst ← sees .constKeyword
  if isConst then
    let _ ← take
  let (type, _) ← baseType
  let defs ← varDefList fuel
  let stop ← semicolon
  return { isConst, baseType := type, defs, span := start.span.through stop }

/-! ## Statements -/

def simpleStmt (fuel : Nat) : Step Stmt := do
  let left ← expression fuel 0
  if ← sees .assign then
    let sign ← take
    match left with
    | .lval reference indices span =>
      let value ← expression fuel 0
      let stop ← semicolon
      return .assign reference indices span value (span.through stop)
    | _ => fail .badAssignmentTarget sign.span
  else
    let stop ← semicolon
    return .expr (some left) (left.span.through stop)

mutual

def stmt (fuel : Nat) : Step Stmt :=
  match fuel with
  | 0 => .exhausted
  | fuel + 1 => do
    let token ← current
    match token.kind with
    | .leftBrace =>
      let (items, span) ← block fuel
      return .block items span
    | .ifKeyword =>
      let _ ← take
      openParen "if"
      let condition ← expression fuel 0
      let _ ← closeParen
      let thenPart ← stmt fuel
      if ← sees .elseKeyword then
        let _ ← take
        let elsePart ← stmt fuel
        return .branch condition thenPart (some elsePart) (token.span.through elsePart.span)
      else
        return .branch condition thenPart none (token.span.through thenPart.span)
    | .whileKeyword =>
      let _ ← take
      openParen "while"
      let condition ← expression fuel 0
      let _ ← closeParen
      let body ← stmt fuel
      return .loop condition body (token.span.through body.span)
    | .breakKeyword =>
      let _ ← take
      return .breakLoop (token.span.through (← semicolon))
    | .continueKeyword =>
      let _ ← take
      return .continueLoop (token.span.through (← semicolon))
    | .returnKeyword =>
      let _ ← take
      let value ← if ← sees .semicolon then pure none else some <$> expression fuel 0
      return .giveBack value (token.span.through (← semicolon))
    | .semicolon =>
      let _ ← take
      return .expr none token.span
    | _ => simpleStmt fuel

def block (fuel : Nat) : Step (List BlockItem × Span) :=
  match fuel with
  | 0 => .exhausted
  | fuel + 1 => do
    let start ← expect .leftBrace .openBrace
    let items ← blockItems fuel
    let stop ← closeBrace
    return (items, start.span.through stop)

/-- The items of a block up to its closing brace. Rejected items are left out. -/
def blockItems (fuel : Nat) : Step (List BlockItem) :=
  match fuel with
  | 0 => .exhausted
  | fuel + 1 => do
    let token ← current
    if token.kind = .rightBrace ∨ token.kind = .endOfInput then
      return []
    else
      match ← (blockItem fuel).attempt with
      | some item => return item :: (← blockItems fuel)
      | none =>
        skipItem false
        blockItems fuel

def blockItem (fuel : Nat) : Step BlockItem :=
  match fuel with
  | 0 => .exhausted
  | fuel + 1 => do
    let token ← current
    match token.kind with
    | .constKeyword | .intKeyword | .floatKeyword => return .decl (← decl fuel)
    | _ => return .stmt (← stmt fuel)

end

/-! ## Functions and programs -/

def param (fuel : Nat) : Step Param := do
  let (type, start) ← baseType
  let name ← expect .identifier .parameterName
  if ← sees .leftBracket then
    let _ ← take
    let stop ← closeBracket
    let (dims, stop) ← indexList fuel stop
    return {
      baseType := type, name := name.value, isArray := true, dims
      span := start.span.through stop, nameSpan := name.span }
  else
    return {
      baseType := type, name := name.value, isArray := false, dims := []
      span := start.span.through name.span, nameSpan := name.span }

def paramList (fuel : Nat) : Step (List Param) :=
  match fuel with
  | 0 => .exhausted
  | fuel + 1 => do
    let first ← param fuel
    if ← sees .comma then
      let _ ← take
      return first :: (← paramList fuel)
    else
      return [first]

def funcDef (fuel : Nat) (returnType : ReturnType) : Step FuncDef := do
  let type ← take
  let name ← expect .identifier .functionName
  let _ ← expect .leftParen .openParen
  let params ← if ← sees .rightParen then pure [] else paramList fuel
  let _ ← closeParen
  let (body, bodySpan) ← block fuel
  return {
    returnType, name := name.value, params, body, bodySpan
    span := type.span.through bodySpan, nameSpan := name.span, typeSpan := type.span }

def item (fuel : Nat) : Step Item := do
  let token ← current
  if token.kind = .constKeyword then
    return .decl (← decl fuel)
  else
    match ReturnType.ofKind? token.kind with
    | none => fail (.expected .item token.describe) token.span
    | some type =>
      if (← kindAhead 1) = .identifier ∧ (← kindAhead 2) = .leftParen then
        return .func (← funcDef fuel type)
      else if type = .void then
        fail .voidVariable token.span
      else
        return .decl (← decl fuel)

/-- The items of a program. Rejected items are left out. -/
def items (fuel : Nat) : Step (List Item) :=
  match fuel with
  | 0 => .exhausted
  | fuel + 1 => do
    if ← sees .endOfInput then
      return []
    else
      match ← (item fuel).attempt with
      | some first => return first :: (← items fuel)
      | none =>
        skipItem true
        items fuel

/-- More than a program of `count` tokens can use: between two tokens no more than ten steps stand inside
each other. -/
def fuelFor (count : Nat) : Nat := 16 * (count + 1)

end Parser

namespace CompUnit

def ofTokens (file : String) (tokens : List Token) : Except (List Report) CompUnit :=
  match tokens with
  | [] => .error []
  | first :: rest =>
    match Parser.items (Parser.fuelFor tokens.length) ⟨none, first, rest, []⟩ with
    | .accept items state =>
      if state.reports.isEmpty then
        let stop := state.current.span
        .ok {
          items
          span := {
            file, startLine := 1, startColumn := 1, endLine := stop.endLine
            endColumn := stop.endColumn } }
      else .error state.reports
    | .reject state => .error state.reports
    | .exhausted => .error []

end CompUnit

end SysYTools
