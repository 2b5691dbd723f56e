import ScriptMachine.Compiler.State

set_option autoImplicit false

/- Moving through the tokens and reporting problems. Malformed tokens are reported when the
cursor comes to them and are then left out. -/
namespace ScriptMachine.Compiler

/-- Reports a problem at a token, unless an earlier one is still being recovered from. -/
def errorAt (token : Token) (problem : Problem) : Compile Unit :=
  modify fun state =>
    if state.panicking then state
    else
      { state with
        panicking := true
        diagnostics := state.diagnostics.push
          ⟨token.line, token.column, problem, state.draft.name⟩ }

def here : Compile Token := do
  return (← get).cursor.here

def previous : Compile Token := do
  return (← get).cursor.previous

/-- Reports a problem at the token last passed. -/
def error (problem : Problem) : Compile Unit := do
  errorAt (← previous) problem

/-- Reports a problem at the current token. -/
def errorHere (problem : Problem) : Compile Unit := do
  errorAt (← here) problem

/-- Reports the malformed token at the cursor and leaves out the run it begins. -/
def settle : Compile Unit := do
  let token ← here
  if token.kind == .malformed then
    errorAt token (.malformed token.text)
    modify fun state => { state with cursor := state.cursor.settled }

def atEnd : Compile Bool := do
  return (← here).kind == .finish

/-- Whether the current token is of a kind; nothing is at the end. -/
def check (kind : TokenKind) : Compile Bool := do
  let token ← here
  return token.kind == kind && token.kind != .finish

/-- Moves past the current token and past malformed ones behind it. -/
def step : Compile Unit := do
  modify fun state => { state with cursor := state.cursor.moved }
  settle

/-- Moves past the current token unless it is the last. -/
def advance : Compile Unit := do
  if !(← atEnd) then step

/-- Moves past the current token if it is of the given kind, and tells whether it was. -/
def accept (kind : TokenKind) : Compile Bool := do
  if ← check kind then
    step
    return true
  else
    return false

/-- `accept` where that is allowed at all. -/
def acceptIf (allowed : Bool) (kind : TokenKind) : Compile Bool :=
  if allowed then accept kind else return false

/-- Passes a token of the given kind, or reports what was expected. The result is the token
passed, or else the one found in its place. -/
def expect (kind : TokenKind) (what : String) : Compile Token := do
  if ← check kind then
    step
    previous
  else
    errorHere (.expected (ascii what))
    here

/-- The tokens that begin a declaration or a statement. -/
def startsStatement : TokenKind → Bool
  | .structWord | .traitWord | .implWord | .fnWord | .varWord | .forWord | .ifWord | .whileWord
  | .printWord | .returnWord => true
  | _ => false

/-- Recovers from a problem: skips to the end of the statement or to a token that begins one. -/
def synchronize (bound : Nat) : Compile Unit := do
  modify fun state => { state with panicking := false }
  iterate bound () fun _ => do
    if ← atEnd then return ((), false)
    if (← previous).kind == .semicolon then return ((), false)
    if startsStatement (← here).kind then return ((), false)
    advance
    return ((), true)

end ScriptMachine.Compiler
