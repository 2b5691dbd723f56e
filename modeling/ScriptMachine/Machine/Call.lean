import ScriptMachine.Machine.Cell

set_option autoImplicit false

/- Calls of closures, natives and methods. -/
namespace ScriptMachine.Machine

/-- Gives the innermost frame its own copies of the structs in `count` slots from `index` on. -/
def copyArguments (index : Nat) : (count : Nat) → Exec Unit
  | 0 => return ()
  | count + 1 => do
    match ← slot index with
    | .stack node => setSlot index (← copyInto 0 (← struct node))
    | _ => pure ()
    copyArguments (index + 1) count

/-- Calls a closure whose arguments are on the stack above its callee or receiver. All of them
are passed by value. -/
def callClosure (closure : ObjectId) (argCount : Nat) : Exec Unit := do
  let prototype ← given ((← get).heap.closurePrototype? closure)
  if argCount != prototype.arity then
    fail (.wrongArity prototype.arity argCount)
  let machine ← get
  if machine.config.maxFrames ≤ machine.frames.length then
    fail .stackOverflow
  if machine.stack.size ≤ argCount then
    goWrong
  let base := machine.stack.size - argCount - 1
  modify fun machine => { machine with frames := { closure, base } :: machine.frames }
  copyArguments base (argCount + 1)

def countValue (count : Nat) : Value :=
  .number (Float.ofNat count)

def bytesValue (bytes : UInt64) : Value :=
  .number bytes.toFloat

/-- What a native function does with its arguments. -/
def runBuiltin (action : Builtin) (args : List Value) : Exec Value := do
  let first := args.head?.getD .nil
  match action with
  | .clock => return .number (← get).now
  | .double =>
    match first with
    | .number value => return .number (value * 2)
    | _ => fail (.host (ascii "Value is not number"))
  | .argumentCount => return countValue args.length
  | .same => return first
  | .text =>
    let text := (← get).view.text first
    return .ref (← allocating [] (Heap.intern · text))
  | .explode => fail (.host (ascii "kaboom"))
  | .fault => throw (.fault ⟨.host (ascii "native fault"), [⟨ascii "host", 7⟩]⟩)
  | .collect =>
    modify fun machine => { machine with heap := machine.heap.collect machine.roots }
    return .nil
  | .heapObjects => return countValue (← get).heap.objectCount
  | .heapInterned => return countValue (← get).heap.interned.size
  | .heapBytes => return bytesValue (← get).heap.bytes
  | .gcCycles => return countValue (← get).heap.stats.cycles
  | .arenaBytes => return bytesValue (← get).arenaBytes
  | .stackSize => return countValue (← get).stack.size
  | .frameCount => return countValue (← get).frames.length
  | .emit =>
    write (ascii "[" ++ (← get).view.text first ++ ascii "]")
    return first

/-- Runs the action of a native function on the arguments on top of the stack. They and the callee
stay there until it is done. -/
def applyNative (host : Native) (argCount : Nat) : Exec Unit := do
  let size := (← get).stack.size
  if size ≤ argCount then
    goWrong
  let args := ((← get).stack.extract (size - argCount) size).toList
  let result ← match host.action with
    | some action => runBuiltin action args
    | none => fail (.host (ascii "native '" ++ host.name ++ ascii "' has no callback"))
  shrink (size - argCount - 1)
  push result

/-- Calls a native function. -/
def callNative (host : Native) (argCount : Nat) : Exec Unit := do
  match host.arity with
  | some arity =>
    if argCount != arity then
      fail (.wrongArity arity argCount)
  | none => pure ()
  applyNative host argCount

def callValue (callee : Value) (argCount : Nat) : Exec Unit := do
  match callee with
  | .ref id =>
    match (← get).heap.get? id with
    | some (.closure _ _) => callClosure id argCount
    | some (.native native) => callNative native argCount
    | _ => fail .notCallable
  | _ => fail .notCallable

/-- A struct as property instructions see it: its type, and what reading a slot gives. -/
structure Target where
  type : StructType
  field? : Nat → Option Value

/-- The struct that a value is or refers to, if it does. -/
def target? (machine : Machine) : Value → Option Target
  | .stack node =>
    (machine.node? node).map fun struct =>
      ⟨machine.view.structType struct.type, struct.field?⟩
  | .ref id =>
    match machine.heap.get? id with
    | some (.record type fields) =>
      some ⟨machine.view.structType type, fun slot => fields[slot]?⟩
    | _ => none
  | _ => none

/-- Calls a method by name. A field of that name comes first, and its value is called instead,
without a receiver. -/
def invoke (name : Text) (argCount : Nat) : Exec Unit := do
  let receiver ← peek argCount
  match target? (← get) receiver with
  | none => fail .noMethods
  | some target =>
    match target.type.findField name with
    | some slot =>
      let callee ← given (target.field? slot)
      setSlot ((← get).stack.size - argCount - 1) callee
      callValue callee argCount
    | none =>
      match target.type.findMethod name with
      | some method => callClosure method.closure argCount
      | none => fail (.undefinedMethod name target.type.name)

end ScriptMachine.Machine
