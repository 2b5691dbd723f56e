import ScriptMachine.Compiler
import ScriptMachine.Proofs.Source.Trees

set_option autoImplicit false

/- From tokens to trees. The grammar is that of the compiler, without what it emits and without what
it complains about: where there is a complaint, nothing is read. -/
namespace ScriptMachine.Source

open Compiler (Level Opening Continuation)
open Syntax (Operator)

/-- What is read from the beginning of a list of tokens, and the tokens behind it. -/
abbrev Reading := StateT (List Token) Option

namespace Reading

/-- Whether a token of some kind comes next. -/
def check (kind : TokenKind) : Reading Bool := fun tokens =>
  some (tokens.head?.any fun token => token.kind == kind, tokens)

def atEnd : Reading Bool := fun tokens =>
  some (tokens.isEmpty, tokens)

/-- Whether a function is declared here, and not only written down as a value. -/
def atFunction : Reading Bool := fun tokens =>
  match tokens with
  | first :: second :: _ => some (first.kind == .fnWord && second.kind == .identifier, tokens)
  | _ => some (false, tokens)

/-- The operator that comes next, if any. -/
def operator : Reading (Option (Continuation × Level)) := fun tokens =>
  some (tokens.head?.bind fun token => Continuation.of? token.kind, tokens)

def pass : Reading Token
  | [] => none
  | token :: rest => some (token, rest)

def accept (kind : TokenKind) : Reading Bool := do
  if ← check kind then
    let _ ← pass
    return true
  else
    return false

def acceptIf (allowed : Bool) (kind : TokenKind) : Reading Bool :=
  if allowed then accept kind else return false

def expect (kind : TokenKind) : Reading Token := do
  if ← check kind then pass else failure

/-- Repeats `body` while it asks for more. -/
def iterate {σ : Type} : (bound : Nat) → σ → (σ → Reading (σ × Bool)) → Reading σ
  | 0, _, _ => failure
  | bound + 1, value, body => do
    let (value, more) ← body value
    if more then iterate bound value body else return value

end Reading

open Reading

/-- The binary operator that a token stands for. -/
def operator? : TokenKind → Option Operator
  | .equalEqual => some .equal
  | .bangEqual => some .unequal
  | .less => some .less
  | .lessEqual => some .lessEqual
  | .greater => some .greater
  | .greaterEqual => some .greaterEqual
  | .plus => some .plus
  | .minus => some .minus
  | .star => some .times
  | .slash => some .over
  | _ => none

/-- What is nested one level further down, the structs that may be named, and a bound for loops. -/
structure Productions where
  known : Text → Bool
  bound : Nat
  operand : Level → Reading Expression
  statement : Reading Statement
  declaration : Reading Statement

namespace Productions

variable (nested : Productions)

def expression : Reading Expression :=
  nested.operand .assignment

/-- The rest of a block, behind its opening brace. -/
def block : Reading (List Statement) := do
  let body ← iterate nested.bound [] fun body => do
    if (← check .rightBrace) || (← atEnd) then return (body, false)
    let item ← nested.declaration
    return (body ++ [item], true)
  let _ ← expect .rightBrace
  return body

/-- The names of parameters, behind the opening parenthesis. -/
def parameters : Reading (List Text) := do
  if !(← check .rightParen) then
    iterate nested.bound [] fun names => do
      let parameter ← expect .identifier
      return (names ++ [parameter.text], ← accept .comma)
  else
    return []

/-- A function, behind its name. -/
def routine : Reading Routine := do
  let _ ← expect .leftParen
  let parameters ← nested.parameters
  let _ ← expect .rightParen
  let _ ← expect .leftBrace
  let body ← nested.block
  return .mk parameters body

/-- The arguments of a call, behind the opening parenthesis. -/
def arguments : Reading (List Expression) := do
  let mut found := []
  if !(← check .rightParen) then
    found ← iterate nested.bound [] fun found => do
      let argument ← nested.expression
      return (found ++ [argument], ← accept .comma)
  let _ ← expect .rightParen
  return found

/-- A field of a literal and its value. -/
def initialiser : Reading (Text × Expression) := do
  let field ← expect .identifier
  let _ ← expect .equal
  let value ← nested.expression
  return (field.text, value)

/-- A struct literal, behind the name of its type. -/
def literal (struct : Text) (onHeap : Bool) : Reading Expression := do
  let _ ← expect .leftBrace
  let mut found := []
  if !(← check .rightBrace) then
    found ← iterate nested.bound [] fun found => do
      if ← check .rightBrace then return (found, false)
      let initialiser ← nested.initialiser
      return (found ++ [initialiser], ← accept .comma)
  let _ ← expect .rightBrace
  return .literal onHeap struct (found.map Prod.fst) (found.map Prod.snd)

/-- A variable, or an assignment to it. -/
def namedVariable (name : Text) (canAssign : Bool) : Reading Expression := do
  if ← acceptIf canAssign .equal then
    let value ← nested.expression
    return .assign name value
  else
    return .variable name

def identifier (name : Text) (canAssign : Bool) : Reading Expression := do
  let braced ← check .leftBrace
  if braced && nested.known name then nested.literal name false
  else nested.namedVariable name canAssign

/-- An operand, behind its first token. -/
def opening (canAssign : Bool) (token : Token) : Opening → Reading Expression
  | .grouping => do
    let inner ← nested.expression
    let _ ← expect .rightParen
    return inner
  | .unary => do
    let operand ← nested.operand .unary
    return if token.kind == .bang then .not operand else .negate operand
  | .variable => nested.identifier token.text canAssign
  | .string => return .string token.text
  | .number => return .number token.text
  | .literal =>
    match token.kind with
    | .trueWord => return .bool true
    | .falseWord => return .bool false
    | _ => return .nil
  | .receiver => return .variable (ascii "self")
  | .heapStruct => do
    let name ← expect .identifier
    nested.literal name.text true
  | .function => do
    let routine ← nested.routine
    return .function routine

/-- A property read, property assignment or method call, behind the dot. -/
def property (target : Expression) (canAssign : Bool) : Reading Expression := do
  let name ← expect .identifier
  if ← acceptIf canAssign .equal then
    let value ← nested.expression
    return .setProperty target name.text value
  else if ← accept .leftParen then
    let arguments ← nested.arguments
    return .invoke target name.text arguments
  else
    return .property target name.text

/-- What follows an operand, behind the token that continues it. -/
def continuation (left : Expression) (canAssign : Bool) (level : Level) (token : Token) :
    Continuation → Reading Expression
  | .call => do
    let arguments ← nested.arguments
    return .call left arguments
  | .property => nested.property left canAssign
  | .binary => do
    let right ← nested.operand level.tighter
    match operator? token.kind with
    | some operator => return .binary operator left right
    | none => failure
  | .and => do
    let right ← nested.operand .and
    return .and left right
  | .or => do
    let right ← nested.operand .or
    return .or left right

/-- An operand and one more continuation of it, if it binds tightly enough. -/
def continued (level : Level) (left : Expression) : Reading (Expression × Bool) := do
  match ← Reading.operator with
  | none => return (left, false)
  | some (continuation, strength) =>
    if level.rank ≤ strength.rank then
      let token ← pass
      let whole ← nested.continuation left (level.rank ≤ Level.assignment.rank) strength token
        continuation
      return (whole, true)
    else
      return (left, false)

/-- An expression whose operators bind at least as tightly as `level`. -/
def readOperand (level : Level) : Reading Expression := do
  let token ← pass
  match Opening.of? token.kind with
  | none => failure
  | some opening =>
    let first ← nested.opening (level.rank ≤ Level.assignment.rank) token opening
    let whole ← iterate nested.bound first (nested.continued level)
    if ← acceptIf (level.rank ≤ Level.assignment.rank) .equal then failure
    return whole

def expressionStatement : Reading Statement := do
  let value ← nested.expression
  let _ ← expect .semicolon
  return .expression value

def printStatement : Reading Statement := do
  let value ← nested.expression
  let _ ← expect .semicolon
  return .print value

/-- The end of a variable declaration. -/
def variableEnd (name : Text) (value : Expression) : Reading Statement := do
  let _ ← expect .semicolon
  return .var name value

def varDeclaration : Reading Statement := do
  let name ← expect .identifier
  if ← accept .equal then
    let value ← nested.expression
    variableEnd name.text value
  else
    variableEnd name.text .nil

def ifStatement : Reading Statement := do
  let _ ← expect .leftParen
  let condition ← nested.expression
  let _ ← expect .rightParen
  let yes ← nested.statement
  if ← accept .elseWord then
    let no ← nested.statement
    return .choose condition yes no
  else
    return .choose condition yes .skip

def whileStatement : Reading Statement := do
  let _ ← expect .leftParen
  let condition ← nested.expression
  let _ ← expect .rightParen
  let body ← nested.statement
  return .while condition body

def forCondition : Reading (Option Expression) := do
  if ← accept .semicolon then
    return none
  else
    let condition ← nested.expression
    let _ ← expect .semicolon
    return some condition

def forIncrement : Reading (Option Expression) := do
  if ← accept .rightParen then
    return none
  else
    let increment ← nested.expression
    let _ ← expect .rightParen
    return some increment

/-- A `for` loop behind its first clause. -/
def forLoop (first : Statement) : Reading Statement := do
  let condition ← nested.forCondition
  let increment ← nested.forIncrement
  let body ← nested.statement
  return .for first condition increment body

def forStatement : Reading Statement := do
  let _ ← expect .leftParen
  if ← accept .semicolon then
    nested.forLoop .skip
  else if ← accept .varWord then
    let first ← nested.varDeclaration
    nested.forLoop first
  else
    let first ← nested.expressionStatement
    nested.forLoop first

def returnStatement : Reading Statement := do
  if ← accept .semicolon then
    return .return .nil
  else
    let value ← nested.expression
    let _ ← expect .semicolon
    return .return value

def readStatement : Reading Statement := do
  if ← accept .printWord then nested.printStatement
  else if ← accept .ifWord then nested.ifStatement
  else if ← accept .whileWord then nested.whileStatement
  else if ← accept .forWord then nested.forStatement
  else if ← accept .returnWord then nested.returnStatement
  else if ← accept .leftBrace then
    let body ← nested.block
    return .block body
  else nested.expressionStatement

/-- A field of a struct. A type annotation is read over. -/
def field : Reading Text := do
  let field ← expect .identifier
  if ← accept .colon then
    let _ ← expect .identifier
    return field.text
  else
    return field.text

def structDeclaration : Reading Statement := do
  let name ← expect .identifier
  let _ ← expect .leftBrace
  let mut fields := []
  if !(← check .rightBrace) then
    fields ← iterate nested.bound [] fun fields => do
      if ← check .rightBrace then return (fields, false)
      let field ← field
      return (fields ++ [field], ← accept .comma)
  let _ ← expect .rightBrace
  return .struct name.text fields

/-- One entry of a trait. -/
def signature : Reading Unit := do
  if ← accept .fnWord then
    let _ ← expect .identifier
    let _ ← expect .leftParen
    let _ ← nested.parameters
    let _ ← expect .rightParen
    let _ ← expect .semicolon
  else
    failure

def traitDeclaration : Reading Statement := do
  let name ← expect .identifier
  let _ ← expect .leftBrace
  iterate nested.bound () fun _ => do
    if (← check .rightBrace) || (← atEnd) then return ((), false)
    nested.signature
    return ((), true)
  let _ ← expect .rightBrace
  return .trait name.text

/-- One entry of an impl. -/
def method : Reading (Text × Routine) := do
  if ← accept .fnWord then
    let name ← expect .identifier
    let routine ← nested.routine
    return (name.text, routine)
  else
    failure

def implDeclaration : Reading Statement := do
  let trait ← expect .identifier
  let _ ← expect .forWord
  let struct ← expect .identifier
  let _ ← expect .leftBrace
  let methods ← iterate nested.bound [] fun methods => do
    if (← check .rightBrace) || (← atEnd) then return (methods, false)
    let method ← nested.method
    return (methods ++ [method], true)
  let _ ← expect .rightBrace
  return .impl trait.text struct.text methods

def fnDeclaration : Reading Statement := do
  let name ← expect .identifier
  let routine ← nested.routine
  return .fn name.text routine

def readDeclaration : Reading Statement := do
  if ← accept .structWord then nested.structDeclaration
  else if ← accept .traitWord then nested.traitDeclaration
  else if ← accept .implWord then nested.implDeclaration
  else if ← atFunction then
    let _ ← pass
    nested.fnDeclaration
  else if ← accept .varWord then nested.varDeclaration
  else nested.readStatement

end Productions

section Depth

variable (known : Text → Bool)

mutual

/-- Expressions, nested at most `depth` levels deep. -/
def operandAt : (depth : Nat) → Level → Reading Expression
  | 0, _ => failure
  | depth + 1, level =>
    Productions.readOperand
      ⟨known, depth, operandAt depth, statementAt depth, declarationAt depth⟩ level

/-- Statements, nested at most `depth` levels deep. -/
def statementAt : (depth : Nat) → Reading Statement
  | 0 => failure
  | depth + 1 =>
    Productions.readStatement
      ⟨known, depth, operandAt depth, statementAt depth, declarationAt depth⟩

/-- Declarations, nested at most `depth` levels deep. -/
def declarationAt : (depth : Nat) → Reading Statement
  | 0 => failure
  | depth + 1 =>
    Productions.readDeclaration
      ⟨known, depth, operandAt depth, statementAt depth, declarationAt depth⟩

end

end Depth

/-- The structs that may be named behind a declaration. -/
def Statement.announces (known : Text → Bool) : Statement → Text → Bool
  | .struct name _ => fun other => known other || other == name
  | _ => known

/-- The structs that may be named behind some declarations. -/
def announced (known : Text → Bool) (program : List Statement) : Text → Bool :=
  program.foldl Statement.announces known

/-- A unit, as far as it is nested at most `depth` levels deep and has no more declarations. -/
def readUnit (known : Text → Bool) (depth : Nat) : Reading (List Statement) :=
  iterate depth [] fun program => do
    if ← atEnd then return (program, false)
    let item ← declarationAt (announced known program) depth
    return (program ++ [item], true)

/-- The program that a source text stands for, where some structs are known already. -/
def read (known : Text → Bool) (source : Text) : Option (List Statement) :=
  let tokens := (Token.scan source).takeWhile fun token => token.kind != .finish
  (readUnit known (Compiler.depthFor (Token.scan source).length) tokens).map Prod.fst

end ScriptMachine.Source
