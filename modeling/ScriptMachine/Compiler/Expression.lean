import ScriptMachine.Compiler.Grammar
import ScriptMachine.Number.Read

set_option autoImplicit false

/- Expressions, by precedence climbing. Instructions are emitted as soon as an operand or an
operator has been read. -/
namespace ScriptMachine.Compiler

/-- What a token begins when it stands where an operand is expected. -/
inductive Opening where
  | grouping | unary | variable | string | number | literal | receiver | heapStruct | function
  deriving DecidableEq, Repr

def Opening.of? : TokenKind → Option Opening
  | .leftParen => some .grouping
  | .minus | .bang => some .unary
  | .identifier => some .variable
  | .string => some .string
  | .number => some .number
  | .trueWord | .falseWord | .nilWord => some .literal
  | .selfWord => some .receiver
  | .newWord => some .heapStruct
  | .fnWord => some .function
  | _ => none

/-- What a token continues when it stands behind an operand. -/
inductive Continuation where
  | call | property | binary | and | or
  deriving DecidableEq, Repr

/-- The continuation a token stands for and how tightly it binds. -/
def Continuation.of? : TokenKind → Option (Continuation × Level)
  | .leftParen => some (.call, .call)
  | .dot => some (.property, .call)
  | .minus | .plus => some (.binary, .term)
  | .slash | .star => some (.binary, .factor)
  | .bangEqual | .equalEqual => some (.binary, .equality)
  | .greater | .greaterEqual | .less | .lessEqual => some (.binary, .comparison)
  | .andWord => some (.and, .and)
  | .orWord => some (.or, .or)
  | _ => none

/-- The instructions of a binary operator, behind those of its operands. -/
def binaryCode : TokenKind → List Opcode
  | .bangEqual => [.equal, .not]
  | .equalEqual => [.equal]
  | .greater => [.greater]
  | .greaterEqual => [.less, .not]
  | .less => [.less]
  | .lessEqual => [.greater, .not]
  | .plus => [.add]
  | .minus => [.subtract]
  | .star => [.multiply]
  | .slash => [.divide]
  | _ => []

/-- The most arguments one call can have. -/
def maxArguments : Nat := 255

namespace Grammar

/-- The arguments of a call behind its opening parenthesis. The result is their number, and
the limit when there are more. -/
def arguments (grammar : Grammar) : Compile Nat := do
  let mut count := 0
  if !(← check .rightParen) then
    count ← iterate grammar.bound 0 fun count => do
      let _ ← grammar.expression
      if count == maxArguments then
        error .tooManyArguments
      return (count + 1, ← accept .comma)
  let _ ← expect .rightParen "')' after arguments"
  return min count maxArguments

/-- One initialiser of a struct literal. `layout` lists the slots initialised so far, last
first; a problem with the field leaves it as it is. -/
def initialiser (grammar : Grammar) (type : StructType) (onHeap : Bool) (layout : List Nat)
    : Compile (List Nat) := do
  let field ← expect .identifier "field name in struct literal"
  let slot := type.findField field.text
  match slot with
  | none => errorAt field (.unknownField type.name field.text)
  | some slot =>
    if layout.contains slot then
      errorAt field (.fieldTwice field.text)
  let _ ← expect .equal "'=' after field name"
  let value ← grammar.expression
  if onHeap && value.placement.mayBeStack then
    emit .promote
  match slot with
  | some slot => return if layout.contains slot then layout else slot :: layout
  | none => return layout

/-- A struct literal behind its type's name. -/
def structLiteral (grammar : Grammar) (id : StructId) (onHeap : Bool) : Compile Shape := do
  let type := ((← get).struct? id).getD default
  let _ ← expect .leftBrace "'\x7b' after struct name"
  let mut layout := []
  if !(← check .rightBrace) then
    layout ← iterate grammar.bound [] fun layout => do
      if ← check .rightBrace then return (layout, false)
      let layout ← grammar.initialiser type onHeap layout
      return (layout, ← accept .comma)
  let _ ← expect .rightBrace "'\x7d' after struct literal fields"
  let index := (← draft).body.layouts.size
  let slots := layout.reverse
  modifyBody fun body => { body with layouts := body.layouts.push slots }
  emitWith (if onHeap then .heapStruct else .stackStruct) id index
  return {
    placement := if onHeap then .heap else .stack
    fresh := !onHeap
    holdsLiteral := !onHeap
    struct := some id }

/-- A read of, or an assignment to, a local of the current function. -/
def localVariable (grammar : Grammar) (slot : Nat) (canAssign : Bool) : Compile Shape := do
  if ← acceptIf canAssign .equal then
    let value ← grammar.expression
    if value.needsCopy then
      emit .copyStruct
    modifyDraft fun draft => draft.modifyLocal slot fun found =>
      let always := found.branch == draft.branchDepth && !found.captured
      { found with shape := if always then value.stored else found.shape.merge value.stored }
    emitOperand .setLocal slot
    return value.stored
  else
    emitOperand .getLocal slot
    let locals := (← draft).locals
    let shape := (locals[locals.length - 1 - slot]?.map Variable.shape).getD {}
    return { shape.stored with arity := shape.arity }

/-- A read of, or an assignment to, a variable of an enclosing function. -/
def upvalueVariable (grammar : Grammar) (index : Nat) (canAssign : Bool) : Compile Shape := do
  if ← acceptIf canAssign .equal then
    let value ← grammar.expression
    emitOperand .setUpvalue index
    return value.stored
  else
    emitOperand .getUpvalue index
    return .anything

/-- A read of, or an assignment to, a global. -/
def globalVariable (grammar : Grammar) (name : Token) (canAssign : Bool) : Compile Shape := do
  let constant ← textConstant name.text
  if ← acceptIf canAssign .equal then
    let value ← grammar.expression
    if value.escapes then
      errorAt name (.structInGlobal name.text)
    modify fun state =>
      let known := (state.globals[name.text]?.map Global.shape).getD {}
      { state with
        globals := state.globals.insert name.text ⟨known.merge value.stored, true⟩ }
    emitOperand .setGlobal constant
    return value.stored
  else
    emitOperand .getGlobal constant
    match (← get).globals[name.text]? with
    | none => return {}
    | some known =>
      let arity := if known.reassigned then none else known.shape.arity
      return { known.shape.stored with arity }

/-- A name used as a variable: a local, else a variable of an enclosing function, else a
global. -/
def namedVariable (grammar : Grammar) (name : Token) (canAssign : Bool) : Compile Shape := do
  match ← resolveLocal name.text with
  | some slot => grammar.localVariable slot canAssign
  | none =>
    match ← resolveUpvalue name.text with
    | some index => grammar.upvalueVariable index canAssign
    | none => grammar.globalVariable name canAssign

/-- An identifier: a struct literal when it names a struct and a brace follows, else a
variable. -/
def identifier (grammar : Grammar) (canAssign : Bool) : Compile Shape := do
  let name ← previous
  let braced ← check .leftBrace
  let struct := (← get).findStruct name.text
  match if braced then struct else none with
  | some id => grammar.structLiteral id false
  | none => grammar.namedVariable name canAssign

/-- The receiver of the method being compiled. -/
def receiver (grammar : Grammar) : Compile Shape := do
  let state ← get
  if !((state.draft :: state.enclosing).any fun draft => draft.kind == .method) then
    error .selfOutsideMethod
    return {}
  else
    let token ← previous
    let shape ← grammar.namedVariable { token with kind := .selfWord, text := ascii "self" } false
    let state ← get
    return if state.draft.kind == .method then { shape with struct := state.implType } else shape

/-- A struct literal on the heap, behind `new`. -/
def heapStruct (grammar : Grammar) : Compile Shape := do
  let name ← expect .identifier "struct name after 'new'"
  match (← get).findStruct name.text with
  | some id => grammar.structLiteral id true
  | none =>
    errorAt name (.undefinedStruct name.text)
    return {}

/-- A function used as a value. -/
def functionLiteral (grammar : Grammar) : Compile Shape := do
  let (prototype, arity) ← grammar.function .function (ascii "anonymous")
  emitOperand .closure (← makeConstant (.ref prototype))
  return { arity := some arity }

/-- An operand, behind its first token. -/
def opening (grammar : Grammar) (canAssign : Bool) : Opening → Compile Shape
  | .grouping => do
    let shape ← grammar.expression
    let _ ← expect .rightParen "')' after expression"
    return shape
  | .unary => do
    let operator := (← previous).kind
    let _ ← grammar.operand .unary
    emit (if operator == .bang then .not else .negate)
    return {}
  | .variable => grammar.identifier canAssign
  | .string => do
    emitOperand .constant (← textConstant (← previous).text)
    return {}
  | .number => do
    emitOperand .constant (← makeConstant (.number (Number.read (← previous).text)))
    return {}
  | .literal => do
    match (← previous).kind with
    | .trueWord => emit .true
    | .falseWord => emit .false
    | _ => emit .nil
    return {}
  | .receiver => grammar.receiver
  | .heapStruct => grammar.heapStruct
  | .function => grammar.functionLiteral

/-- The right operand of `and` or `or`, skipped by the given jump. -/
def shortCircuit (grammar : Grammar) (left : Shape) (skip : Opcode) (level : Level) :
    Compile Shape := do
  let exit ← emitJump skip
  emit .pop
  modifyDraft fun draft => { draft with branchDepth := draft.branchDepth + 1 }
  let right ← grammar.operand level
  modifyDraft fun draft => { draft with branchDepth := draft.branchDepth - 1 }
  patchJump exit
  return left.merge right

/-- A call, behind its opening parenthesis. -/
def call (grammar : Grammar) (callee : Shape) : Compile Shape := do
  let given ← grammar.arguments
  match callee.arity with
  | some arity =>
    if given != arity then
      error (.wrongArity arity given)
  | none => pure ()
  emitOperand .call given
  return .anything

/-- Checks the number of arguments of a method call when the receiver's type is known. -/
def checkMethodArity (target : Shape) (name : Text) (given : Nat) : Compile Unit := do
  let state ← get
  let arity := do
    let struct ← target.struct
    let type ← state.struct? struct
    if (type.findField name).isSome then none
    else (state.findMethod struct name).bind state.methodArity
  match arity with
  | some arity =>
    if given != arity then
      error (.wrongArity arity given)
  | none => pure ()

/-- A property read, property assignment or method call, behind the dot. -/
def property (grammar : Grammar) (target : Shape) (canAssign : Bool) : Compile Shape := do
  let name ← expect .identifier "property name after '.'"
  let constant ← textConstant name.text
  if ← acceptIf canAssign .equal then
    let value ← grammar.expression
    if target.placement == .heap && value.placement.mayBeStack then
      emit .promote
      emitOperand .setProperty constant
      return { placement := .heap, struct := value.struct }
    else
      emitOperand .setProperty constant
      return value.stored
  else if ← accept .leftParen then
    let given ← grammar.arguments
    checkMethodArity target name.text given
    emitWith .invoke constant given
    return .anything
  else
    emitOperand .getProperty constant
    return .anything

/-- What follows an operand, behind the token that continues it. -/
def continuation (grammar : Grammar) (left : Shape) (canAssign : Bool) (level : Level) :
    Continuation → Compile Shape
  | .call => grammar.call left
  | .property => grammar.property left canAssign
  | .binary => do
    let operator := (← previous).kind
    let _ ← grammar.operand level.tighter
    for op in binaryCode operator do
      emit op
    return {}
  | .and => grammar.shortCircuit left .jumpIfFalse .and
  | .or => grammar.shortCircuit left .jumpIfTrue .or

/-- An expression whose operators bind at least as tightly as `level`. -/
def parseOperand (grammar : Grammar) (level : Level) : Compile Shape := do
  advance
  match Opening.of? (← previous).kind with
  | none =>
    error (.expected (ascii "expression"))
    return {}
  | some opening =>
    let canAssign := level.rank ≤ Level.assignment.rank
    let first ← grammar.opening canAssign opening
    let shape ← iterate grammar.bound first fun shape => do
      match Continuation.of? (← here).kind with
      | none => return (shape, false)
      | some (continuation, strength) =>
        if level.rank ≤ strength.rank then
          advance
          return (← grammar.continuation shape canAssign strength continuation, true)
        else
          return (shape, false)
    if ← acceptIf canAssign .equal then
      error .invalidAssignmentTarget
    return shape

end Grammar

end ScriptMachine.Compiler
