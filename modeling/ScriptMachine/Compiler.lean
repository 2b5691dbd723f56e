import ScriptMachine.Compiler.Declaration
import ScriptMachine.Token.Scan

set_option autoImplicit false

/- Compiling a unit: one pass over the tokens that emits bytecode as it goes. -/
namespace ScriptMachine.Compiler

mutual

/-- Expressions, nested at most `depth` levels deep. -/
def operandAt : (depth : Nat) → Level → Compile Shape
  | 0, _ => throw .diverged
  | depth + 1, level =>
    Grammar.parseOperand ⟨depth, operandAt depth, statementAt depth, declarationAt depth⟩ level

/-- Statements, nested at most `depth` levels deep. -/
def statementAt : (depth : Nat) → Compile Unit
  | 0 => throw .diverged
  | depth + 1 =>
    Grammar.parseStatement ⟨depth, operandAt depth, statementAt depth, declarationAt depth⟩

/-- Declarations, nested at most `depth` levels deep. -/
def declarationAt : (depth : Nat) → Compile Unit
  | 0 => throw .diverged
  | depth + 1 =>
    Grammar.parseDeclaration ⟨depth, operandAt depth, statementAt depth, declarationAt depth⟩

end

/-- A depth that no token list of this length needs. Every nested production passes a token
first; the rest is for what follows the last one. -/
def depthFor (tokenCount : Nat) : Nat :=
  8 * tokenCount + 64

/-- All declarations up to the end of the unit. -/
def unit (depth : Nat) : Compile Unit := do
  settle
  iterate depth () fun _ => do
    if ← atEnd then return ((), false)
    declarationAt depth
    return ((), true)
  emitReturnNil

/-- Why a unit gave no script. -/
inductive Failure where
  | diagnostics (found : List Diagnostic)
  | exhausted (failure : Exhausted)
  | diverged
  | unregistered (failure : RegistryError)

/-- The script of a compiled unit, and the registry with the unit's declarations. -/
structure Compiled where
  script : ObjectId
  registry : Registry

/-- The end of a compilation whose last token has been passed. Declarations count only when
there is no diagnostic. -/
def finish (state : State) : Heap × Except Failure Compiled :=
  if state.diagnostics.isEmpty then
    match state.committed with
    | .ok registry =>
      (state.heap.set state.draft.id (.function state.draft.body),
        .ok ⟨state.draft.id, registry⟩)
    | .error failure => (state.heap, .error (.unregistered failure))
  else (state.heap, .error (.diagnostics state.diagnostics.toList))

/-- Compiles tokens. `outside` holds the roots of everything but the compilation itself. -/
def compile (heap : Heap) (registry : Registry) (outside : List ObjectId)
    (tokens : List Token) : Heap × Except Failure Compiled :=
  match Heap.newFunction (fun _ => outside) heap with
  | .error failure heap => (heap, .error (.exhausted failure))
  | .ok id heap =>
    let callee : Variable := { name := [], depth := some 0 }
    let draft : Draft := { id, kind := .script, name := ascii "script", body := {}, locals := [callee] }
    let state : State :=
      { heap, registry, outside, cursor := .start tokens, draft }
    match unit (depthFor tokens.length) state with
    | .ok _ state => finish state
    | .error (.exhausted failure) state => (state.heap, .error (.exhausted failure))
    | .error .diverged state => (state.heap, .error .diverged)

/-- Compiles source text. -/
def compileSource (heap : Heap) (registry : Registry) (outside : List ObjectId)
    (source : Text) : Heap × Except Failure Compiled :=
  compile heap registry outside (Token.scan source)

end ScriptMachine.Compiler
