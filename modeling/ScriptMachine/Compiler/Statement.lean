import ScriptMachine.Compiler.Expression

set_option autoImplicit false

/- Statements, and the variable declaration that a loop can begin with. -/
namespace ScriptMachine.Compiler

/-- Enters code that may run any number of times, or not at all. -/
def beginBranch : Compile Unit :=
  modifyDraft fun draft => { draft with branchDepth := draft.branchDepth + 1 }

def endBranch : Compile Unit :=
  modifyDraft fun draft => { draft with branchDepth := draft.branchDepth - 1 }

namespace Grammar

/-- A variable declaration behind `var`. A local becomes readable behind its initialiser. -/
def varDeclaration (grammar : Grammar) : Compile Unit := do
  let name ← expect .identifier "variable name"
  let isGlobal ← atTopLevel
  if !isGlobal then
    declareLocal name
  let mut value : Shape := {}
  if ← accept .equal then
    value ← grammar.expression
  else
    emit .nil
  let _ ← expect .semicolon "';' after variable declaration"
  if isGlobal then
    if value.escapes then
      errorAt name (.structInGlobal name.text)
    let shape := value.stored
    modify fun state => { state with globals := state.globals.insert name.text ⟨shape, false⟩ }
    emitOperand .defineGlobal (← textConstant name.text)
  else
    if value.needsCopy then
      emit .copyStruct
    markInitialized
    shapeNewest value.stored

def expressionStatement (grammar : Grammar) : Compile Unit := do
  let _ ← grammar.expression
  let _ ← expect .semicolon "';' after expression"
  emit .pop

def printStatement (grammar : Grammar) : Compile Unit := do
  let _ ← grammar.expression
  let _ ← expect .semicolon "';' after value"
  emit .print

def ifStatement (grammar : Grammar) : Compile Unit := do
  let _ ← expect .leftParen "'(' after 'if'"
  let _ ← grammar.expression
  let _ ← expect .rightParen "')' after condition"
  let toElse ← emitJump .jumpIfFalse
  emit .pop
  beginBranch
  grammar.statement
  let toEnd ← emitJump .jump
  patchJump toElse
  emit .pop
  if ← accept .elseWord then
    grammar.statement
  endBranch
  patchJump toEnd

def whileStatement (grammar : Grammar) : Compile Unit := do
  let start ← position
  let _ ← expect .leftParen "'(' after 'while'"
  beginBranch
  let _ ← grammar.expression
  let _ ← expect .rightParen "')' after condition"
  let exit ← emitJump .jumpIfFalse
  emit .pop
  grammar.statement
  emitLoop start
  endBranch
  patchJump exit
  emit .pop

/-- The condition of a `for` loop; the result is the jump that leaves the loop. -/
def forCondition (grammar : Grammar) : Compile (Option Nat) := do
  if ← accept .semicolon then
    return none
  else
    let _ ← grammar.expression
    let _ ← expect .semicolon "';' after loop condition"
    let exit ← emitJump .jumpIfFalse
    emit .pop
    return some exit

/-- The increment of a `for` loop. It is written before the body but runs behind it; the result
is where the body jumps back to. -/
def forIncrement (grammar : Grammar) (condition : Nat) : Compile Nat := do
  if ← accept .rightParen then
    return condition
  else
    let toBody ← emitJump .jump
    let increment ← position
    let _ ← grammar.expression
    emit .pop
    let _ ← expect .rightParen "')' after for clauses"
    emitLoop condition
    patchJump toBody
    return increment

def forStatement (grammar : Grammar) : Compile Unit := do
  beginScope
  let _ ← expect .leftParen "'(' after 'for'"
  if ← accept .semicolon then
    pure ()
  else if ← accept .varWord then
    grammar.varDeclaration
  else
    grammar.expressionStatement
  beginBranch
  let condition ← position
  let exit ← grammar.forCondition
  let again ← grammar.forIncrement condition
  grammar.statement
  emitLoop again
  endBranch
  match exit with
  | some exit =>
    patchJump exit
    emit .pop
  | none => pure ()
  endScope

def returnStatement (grammar : Grammar) : Compile Unit := do
  let keyword ← previous
  if (← draft).kind == .script then
    error .topLevelReturn
  if ← accept .semicolon then
    emitReturnNil
  else
    let value ← grammar.expression
    if value.escapes then
      let name ← match value.struct with
        | some id => structName id
        | none => pure (ascii "struct")
      errorAt keyword (.returnedStruct name)
    let _ ← expect .semicolon "';' after return value"
    emit .return

def parseStatement (grammar : Grammar) : Compile Unit := do
  if ← accept .printWord then grammar.printStatement
  else if ← accept .ifWord then grammar.ifStatement
  else if ← accept .whileWord then grammar.whileStatement
  else if ← accept .forWord then grammar.forStatement
  else if ← accept .returnWord then grammar.returnStatement
  else if ← accept .leftBrace then
    beginScope
    grammar.block
    endScope
  else grammar.expressionStatement

end Grammar

end ScriptMachine.Compiler
