import ScriptMachine.Compiler.Advance

set_option autoImplicit false

/- Writing instructions and constants into the function being compiled. -/
namespace ScriptMachine.Compiler

/-- The most constants one function can have. -/
def maxConstants : Nat := 65536

def modifyBody (change : Prototype → Prototype) : Compile Unit :=
  modifyDraft fun draft => { draft with body := change draft.body }

/-- How many instructions the current function has so far. -/
def position : Compile Nat := do
  return (← get).draft.body.code.size

/-- Appends an instruction on the line of the token last passed. -/
def emitWith (op : Opcode) (a b : Int) : Compile Unit := do
  let line := (← previous).line
  modifyBody fun body =>
    { body with code := body.code.push ⟨op, a, b⟩, lines := body.lines.push line }

def emit (op : Opcode) : Compile Unit :=
  emitWith op 0 0

def emitOperand (op : Opcode) (a : Int) : Compile Unit :=
  emitWith op a 0

/-- Appends a jump whose target is not known yet and returns its position. -/
def emitJump (op : Opcode) : Compile Nat := do
  let jump ← position
  emitOperand op (-1)
  return jump

/-- Makes a jump lead to the instruction that comes next. -/
def patchJump (jump : Nat) : Compile Unit :=
  modifyBody fun body =>
    let target : Int := body.code.size
    { body with code := body.code.modify jump fun code => { code with a := target } }

/-- Appends a jump back to an earlier position. -/
def emitLoop (target : Nat) : Compile Unit :=
  emitOperand .jump target

def emitReturnNil : Compile Unit := do
  emit .nil
  emit .return

/-- The operand for a constant. An object that is already in the pool is not added again;
numbers always are. -/
def makeConstant (value : Value) : Compile Int := do
  let constants := (← get).draft.body.constants
  let known := value.object?.bind fun id =>
    constants.findIdx? fun other => other.object? == some id
  match known with
  | some index => return index
  | none =>
    let index := constants.size
    if maxConstants ≤ index then
      error .tooManyConstants
      return 0
    else
      modifyBody fun body => { body with constants := body.constants.push value }
      return index

/-- The operand for a string constant. -/
def textConstant (text : Text) : Compile Int := do
  let id ← allocating [] (Heap.intern · text)
  makeConstant (.ref id)

end ScriptMachine.Compiler
