import ScriptMachine.Compiler.Emit

set_option autoImplicit false

/- Scopes: declaring locals, leaving blocks, and finding out what a name refers to. -/
namespace ScriptMachine.Compiler

/-- The most locals one function can have, the callee or receiver included. -/
def maxLocals : Nat := 256

/-- The most variables one function can capture. -/
def maxUpvalues : Nat := 256

def atTopLevel : Compile Bool := do
  return (← draft).atTopLevel

def beginScope : Compile Unit :=
  modifyDraft fun draft => { draft with scopeDepth := draft.scopeDepth + 1 }

/-- Leaves a block: drops its locals, closing those that a closure captured. -/
def endScope : Compile Unit := do
  modifyDraft fun draft => { draft with scopeDepth := draft.scopeDepth - 1 }
  let outer := (← draft).scopeDepth
  let leaving := (← draft).locals.takeWhile fun newest =>
    match newest.depth with
    | some depth => outer < depth
    | none => false
  for newest in leaving do
    emit (if newest.captured then .closeUpvalue else .pop)
  modifyDraft fun draft => { draft with locals := draft.locals.drop leaving.length }

/-- Whether the current block already has a local of this name. -/
def declaredHere (draft : Draft) (name : Text) : Bool :=
  let block := draft.locals.takeWhile fun newest =>
    match newest.depth with
    | some depth => draft.scopeDepth ≤ depth
    | none => true
  block.any fun newest => newest.name == name

/-- Declares a local without making it readable yet. -/
def declareLocal (name : Token) : Compile Unit := do
  let draft ← draft
  if declaredHere draft name.text then
    errorAt name .alreadyDeclared
  if maxLocals ≤ draft.locals.length then
    errorAt name .tooManyLocals
  else
    modifyDraft fun draft =>
      { draft with
        locals := { name := name.text, depth := none, branch := draft.branchDepth }
          :: draft.locals }

/-- Makes the newest local readable from here on. -/
def markInitialized : Compile Unit :=
  modifyDraft fun draft =>
    if draft.scopeDepth == 0 then draft
    else draft.modifyNewest fun newest => { newest with depth := some draft.scopeDepth }

/-- Records what is known of the newest local's value. -/
def shapeNewest (shape : Shape) : Compile Unit :=
  modifyDraft fun draft => draft.modifyNewest fun newest => { newest with shape }

/-- Reports a read of a local inside its own initialiser. -/
def checkReadable (found : Variable) : Compile Unit := do
  if found.depth.isNone then
    error .ownInitializer

/-- The slot of a local of the current function. -/
def resolveLocal (name : Text) : Compile (Option Nat) := do
  match (← draft).findLocal name with
  | some (slot, found) =>
    checkReadable found
    return some slot
  | none => return none

/-- The outcome of looking a name up in the enclosing functions: the drafts with the captures
this needs, the index of the upvalue, and the problems met. -/
structure Capturing where
  draft : Draft
  enclosing : List Draft
  index : Option Nat
  problems : List Problem := []

/-- Adds a capture to a draft unless it is there already, and gives its index. -/
def addCapture (draft : Draft) (capture : Capture) : Draft × Nat × List Problem :=
  match draft.body.captures.idxOf? capture with
  | some index => (draft, index, [])
  | none =>
    let count := draft.body.captures.size
    if maxUpvalues ≤ count then (draft, 0, [.tooManyUpvalues])
    else
      let captures := draft.body.captures.push capture
      ({ draft with body := { draft.body with captures } }, count, [])

/-- Looks a name up in the functions around `draft`, nearest first, and captures it through
all functions in between. A captured local may hold anything from then on. -/
def capture (name : Text) (draft : Draft) : List Draft → Capturing
  | [] => { draft, enclosing := [], index := none }
  | outer :: rest =>
    match outer.findLocal name with
    | some (slot, found) =>
      let outer := outer.modifyLocal slot fun found =>
        { found with captured := true, shape := found.shape.merge .anything }
      let (draft, index, problems) := addCapture draft ⟨slot, true⟩
      let unreadable := if found.depth.isNone then [.ownInitializer] else []
      { draft, enclosing := outer :: rest, index := some index
        problems := unreadable ++ problems }
    | none =>
      let around := capture name outer rest
      match around.index with
      | none => { draft, enclosing := around.draft :: around.enclosing, index := none }
      | some index =>
        let (draft, index, problems) := addCapture draft ⟨index, false⟩
        { draft, enclosing := around.draft :: around.enclosing, index := some index
          problems := around.problems ++ problems }

/-- The upvalue index of a variable of an enclosing function. -/
def resolveUpvalue (name : Text) : Compile (Option Nat) := do
  let state ← get
  let found := capture name state.draft state.enclosing
  set { state with draft := found.draft, enclosing := found.enclosing }
  for problem in found.problems do
    error problem
  return found.index

end ScriptMachine.Compiler
