import ScriptMachine.Compiler.Lookup

set_option autoImplicit false

/- The recursive part of the grammar. Each production is written against a `Grammar`, which
stands for the productions one level further down; `bound` limits the loops in it. -/
namespace ScriptMachine.Compiler

/-- Binding strength, from the loosest to the tightest. -/
inductive Level where
  | none | assignment | or | and | equality | comparison | term | factor | unary | call
  | primary
  deriving DecidableEq, Repr

namespace Level

def rank : Level → Nat
  | .none => 0
  | .assignment => 1
  | .or => 2
  | .and => 3
  | .equality => 4
  | .comparison => 5
  | .term => 6
  | .factor => 7
  | .unary => 8
  | .call => 9
  | .primary => 10

/-- The next tighter level. -/
def tighter : Level → Level
  | .none => .assignment
  | .assignment => .or
  | .or => .and
  | .and => .equality
  | .equality => .comparison
  | .comparison => .term
  | .term => .factor
  | .factor => .unary
  | .unary => .call
  | .call => .primary
  | .primary => .primary

end Level

structure Grammar where
  bound : Nat
  operand : Level → Compile Shape
  statement : Compile Unit
  declaration : Compile Unit

namespace Grammar

def expression (grammar : Grammar) : Compile Shape :=
  grammar.operand .assignment

/-- The rest of a block behind its opening brace. -/
def block (grammar : Grammar) : Compile Unit := do
  iterate grammar.bound () fun _ => do
    if (← check .rightBrace) || (← atEnd) then return ((), false)
    grammar.declaration
    return ((), true)
  let _ ← expect .rightBrace "'\x7d' after block"

/-- Opens a draft for a new function inside the current one. The prototype is allocated before
its name, so that a collection for the name finds it among the roots. -/
def beginFunction (kind : FunctionKind) (name : Text) : Compile Unit := do
  let id ← allocating [] Heap.newFunction
  modify fun state =>
    let receiver : Variable :=
      { name := if kind == .method then ascii "self" else []
        depth := some 0
        shape := .unknownOf state.implType }
    { state with
      draft := { id, kind, name, body := { isMethod := kind == .method }, locals := [receiver] }
      enclosing := state.draft :: state.enclosing }
  let nameId ← allocating [] (Heap.intern · name)
  modifyBody fun body => { body with name := some nameId }

/-- Closes the current draft: its prototype goes to the heap, and the draft around it becomes
current again. The result is the prototype's object and its arity. -/
def endFunction : Compile (ObjectId × Nat) :=
  modifyGet fun state =>
    let done := state.draft
    let heap := state.heap.set done.id (.function done.body)
    match state.enclosing with
    | [] => ((done.id, done.body.arity), { state with heap })
    | outer :: rest =>
      ((done.id, done.body.arity), { state with heap, draft := outer, enclosing := rest })

/-- The parameters of a function behind its opening parenthesis. -/
def parameters (grammar : Grammar) : Compile Unit := do
  if !(← check .rightParen) then
    iterate grammar.bound () fun _ => do
      modifyBody fun body => { body with arity := body.arity + 1 }
      if 255 < (← draft).body.arity then
        errorHere .tooManyParameters
      let parameter ← expect .identifier "parameter name"
      declareLocal parameter
      markInitialized
      shapeNewest .anything
      return ((), ← accept .comma)

/-- A function behind its name: parameters and body. -/
def function (grammar : Grammar) (kind : FunctionKind) (name : Text) :
    Compile (ObjectId × Nat) := do
  beginFunction kind name
  beginScope
  let _ ← expect .leftParen "'(' after function name"
  grammar.parameters
  let _ ← expect .rightParen "')' after parameters"
  let _ ← expect .leftBrace "'\x7b' before function body"
  grammar.block
  emitReturnNil
  endFunction

end Grammar

end ScriptMachine.Compiler
