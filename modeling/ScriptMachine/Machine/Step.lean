import ScriptMachine.Machine.Call

set_option autoImplicit false

/- The instructions. -/
namespace ScriptMachine.Machine

inductive Progress where
  | running
  | finished
  deriving DecidableEq, Repr

/-- What an instruction is executed in: its frame and the prototype it comes from. -/
structure Site where
  frame : Frame
  prototype : Prototype

/-- Takes the next instruction of the innermost frame. -/
def fetch : Exec (Site × Instruction) := fun machine =>
  match machine.frames with
  | [] => .error .wrong machine
  | frame :: rest =>
    match machine.heap.closurePrototype? frame.closure with
    | none => .error .wrong machine
    | some prototype =>
      match prototype.code[frame.ip]? with
      | none => .error .wrong machine
      | some code =>
        .ok (⟨frame, prototype⟩, code)
          { machine with frames := { frame with ip := frame.ip + 1 } :: rest }

/-- An operand that counts or names something from zero on. -/
def operand (value : Int) : Exec Nat :=
  if value < 0 then goWrong else return value.toNat

/-- The string constant an operand names: its object and its text. -/
def nameOperand (site : Site) (index : Int) : Exec (ObjectId × Text) := do
  match site.prototype.constant? index with
  | some (.ref id) => return (id, ← given ((← get).heap.string? id))
  | _ => goWrong

def jumpTo (target : Int) : Exec Unit := do
  let ip ← operand target
  modifyFrame 0 fun frame => { frame with ip }

def getGlobal (site : Site) (index : Int) : Exec Unit := do
  let (key, name) ← nameOperand site index
  let machine ← get
  match machine.globals[key]?, machine.natives[key]? with
  | some value, _ => push value
  | none, some native => push (.ref native)
  | none, none => fail (.undefinedVariable name)

/-- Stores the top of the stack in a global. -/
def storeGlobal (key : ObjectId) (name : Text) : Exec Unit := do
  match ← peek 0 with
  | .stack _ => fail (.structInGlobal name)
  | value => modify fun machine => { machine with globals := machine.globals.insert key value }

def defineGlobal (site : Site) (index : Int) : Exec Unit := do
  let (key, name) ← nameOperand site index
  storeGlobal key name
  let _ ← pop

def setGlobal (site : Site) (index : Int) : Exec Unit := do
  let (key, name) ← nameOperand site index
  if (← get).globals[key]?.isNone then
    fail (.undefinedVariable name)
  storeGlobal key name

def getUpvalue (site : Site) (index : Int) : Exec Unit := do
  match ← upvalueCell site.frame (← operand index) with
  | (_, .closed value) => push value
  | (_, .onStack index) => push (← slot index)

def setUpvalue (site : Site) (index : Int) : Exec Unit := do
  let (id, cell) ← upvalueCell site.frame (← operand index)
  assignCell id cell (← peek 0)

def getProperty (site : Site) (index : Int) : Exec Unit := do
  let (_, name) ← nameOperand site index
  match target? (← get) (← peek 0) with
  | none => fail .noFields
  | some target =>
    match target.type.findField name with
    | none => fail (.undefinedField name target.type.name)
    | some slot => setTop (← given (target.field? slot))

/-- Stores a value in a field of a struct and gives what the field then holds. -/
def storeField (target : Value) (slot : Nat) (value : Value) : Exec Value := do
  match target, value with
  | .stack node, .stack source =>
    let copy ← fresh (← struct source)
    charge 0 (copy.bytes + 8).toUInt64
    modifyStruct node fun struct => struct.store slot (.nested copy)
    return .stack copy.id
  | .stack node, value =>
    modifyStruct node fun struct => struct.store slot (.plain value)
    return value
  | .ref id, value =>
    let value ← heapValue [] value
    modifyHeap fun heap => heap.setField id slot value
    return value
  | _, _ => goWrong

def setProperty (site : Site) (index : Int) : Exec Unit := do
  let (_, name) ← nameOperand site index
  let object ← peek 1
  match target? (← get) object with
  | none => fail .noFields
  | some target =>
    match target.type.findField name with
    | none => fail (.undefinedField name target.type.name)
    | some slot =>
      let value ← storeField object slot (← peek 0)
      let _ ← pop
      let _ ← pop
      push value

/-- Replaces two numbers on top of the stack by a result. -/
def binary (result : Float → Float → Value) : Exec Unit := do
  match ← peek 1, ← peek 0 with
  | .number a, .number b =>
    let _ ← pop
    setTop (result a b)
  | _, _ => fail .operandsNotNumbers

def negate : Exec Unit := do
  match ← peek 0 with
  | .number value => setTop (.number (-value))
  | _ => fail .operandNotNumber

def equal : Exec Unit := do
  let b ← pop
  let a ← pop
  push (.bool ((← get).view.equal a b))

def print : Exec Unit := do
  let value ← peek 0
  write ((← get).view.text value ++ [Text.newline])
  let _ ← pop

/-- The captures of a new closure, from `index` on. -/
def captureAll (frame : Frame) (closure : ObjectId) (index : Nat) : List Capture → Exec Unit
  | [] => return ()
  | capture :: rest => do
    let cell ←
      if capture.isLocal then some <$> captureSlot (frame.base + capture.index)
      else match (← get).heap.get? frame.closure with
        | some (.closure _ upvalues) => given upvalues[capture.index]?
        | _ => goWrong
    modifyHeap fun heap => heap.setUpvalue closure index cell
    captureAll frame closure (index + 1) rest

/-- Makes a closure. It is on the stack, and so in use, while its cells are allocated. -/
def makeClosure (site : Site) (index : Int) : Exec Unit := do
  match site.prototype.constant? index with
  | some (.ref id) =>
    let prototype ← given ((← get).heap.prototype? id)
    let closure ← allocating [] (Heap.newClosure · id)
    push (.ref closure)
    captureAll site.frame closure 0 prototype.captures.toList
  | _ => goWrong

/-- Ends the innermost call. The result stays on the stack, and so in use, while closing cells
may allocate; a struct is copied for the caller before the frame that owns it goes away. -/
def finishCall (site : Site) : Exec Progress := do
  closeCells site.frame.base
  let result ← peek 0
  if (← get).frames.length == 1 then
    popFrame
    shrink 0
    return .finished
  else
    let result ← match result with
      | .stack node => do copyInto 1 (← struct node)
      | value => pure value
    shrink site.frame.base
    popFrame
    push result
    return .running

/-- The struct type an operand names. -/
def structOperand (id : Int) : Exec StructType := do
  let known := if id < 0 then none else some id.toNat
  match known.bind (← get).registry.struct? with
  | some type => return type
  | none => fail (.unknownStruct id)

/-- The type a literal instruction names, the slots it fills and the values it fills them with. -/
def literal (site : Site) (code : Instruction) :
    Exec (StructId × StructType × List (Nat × Value)) := do
  let type ← structOperand code.a
  let layout ← given site.prototype.layouts[← operand code.b]?
  let stack := (← get).stack
  if stack.size < layout.length then
    goWrong
  let values := (stack.extract (stack.size - layout.length) stack.size).toList
  return (code.a.toNat, type, layout.zip values)

/-- Fills the slots of a struct literal; nested structs are copied. -/
def fillStruct (struct : StackStruct) : List (Nat × Value) → Exec StackStruct
  | [] => return struct
  | (slot, .stack node) :: rest => do
    let copy ← fresh (← Machine.struct node)
    fillStruct (struct.store slot (.nested copy)) rest
  | (slot, value) :: rest => fillStruct (struct.store slot (.plain value)) rest

/-- Fills the fields of a new instance; structs move to the heap. -/
def fillRecord (id : ObjectId) : List (Nat × Value) → Exec Unit
  | [] => return ()
  | (slot, value) :: rest => do
    let value ← heapValue [id] value
    modifyHeap fun heap => heap.setField id slot value
    fillRecord id rest

def makeStackStruct (site : Site) (code : Instruction) : Exec Unit := do
  let (id, type, entries) ← literal site code
  let node ← modifyGet fun machine =>
    (machine.nextNode, { machine with nextNode := machine.nextNode + 1 })
  let struct ← fillStruct (.blank node id type.fields.length) entries
  let value ← adopt 0 struct
  shrink ((← get).stack.size - entries.length)
  push value

def makeHeapStruct (site : Site) (code : Instruction) : Exec Unit := do
  let (type, declared, entries) ← literal site code
  let id ← allocating [] (Heap.newRecord · type declared.fields.length)
  fillRecord id entries
  shrink ((← get).stack.size - entries.length)
  push (.ref id)

/-- Copies the struct on top of the stack, if one is there. -/
def copyTop : Exec Unit := do
  match ← peek 0 with
  | .stack node => setTop (← copyInto 0 (← struct node))
  | _ => pure ()

/-- Executes an instruction. -/
def execute (site : Site) (code : Instruction) : Exec Progress := do
  match code.op with
  | .constant => push (← given (site.prototype.constant? code.a))
  | .nil => push .nil
  | .true => push (.bool true)
  | .false => push (.bool false)
  | .pop => let _ ← pop
  | .getLocal => push (← slot (site.frame.base + (← operand code.a)))
  | .setLocal => setSlot (site.frame.base + (← operand code.a)) (← peek 0)
  | .getGlobal => getGlobal site code.a
  | .defineGlobal => defineGlobal site code.a
  | .setGlobal => setGlobal site code.a
  | .getUpvalue => getUpvalue site code.a
  | .setUpvalue => setUpvalue site code.a
  | .getProperty => getProperty site code.a
  | .setProperty => setProperty site code.a
  | .equal => equal
  | .greater => binary fun a b => .bool (a > b)
  | .less => binary fun a b => .bool (a < b)
  | .add => binary fun a b => .number (a + b)
  | .subtract => binary fun a b => .number (a - b)
  | .multiply => binary fun a b => .number (a * b)
  | .divide => binary fun a b => .number (a / b)
  | .not => setTop (.bool (← peek 0).isFalsey)
  | .negate => negate
  | .print => print
  | .jump => jumpTo code.a
  | .jumpIfFalse => if (← peek 0).isFalsey then jumpTo code.a
  | .jumpIfTrue => if !(← peek 0).isFalsey then jumpTo code.a
  | .call =>
    let argCount ← operand code.a
    callValue (← peek argCount) argCount
  | .invoke =>
    let (_, name) ← nameOperand site code.a
    invoke name (← operand code.b)
  | .closure => makeClosure site code.a
  | .closeUpvalue =>
    closeCells ((← get).stack.size - 1)
    let _ ← pop
  | .return => return ← finishCall site
  | .stackStruct => makeStackStruct site code
  | .heapStruct => makeHeapStruct site code
  | .promote => setTop (← heapValue [] (← peek 0))
  | .copyStruct => copyTop
  | .unknown => pure ()
  return .running

/-- Executes the next instruction. -/
def step : Exec Progress := do
  let (site, code) ← fetch
  execute site code

end ScriptMachine.Machine
