import ScriptMachine.Fault
import ScriptMachine.Heap.Allocate
import ScriptMachine.Value.Render

set_option autoImplicit false

/- The state of the machine, and the actions that only look at it or move the operand stack.
The stack holds live slots only. -/
namespace ScriptMachine

structure MachineConfig where
  maxFrames : Nat := 64
  stackSlots : Nat := 16384
  deriving Inhabited

/-- An active call. `base` is its first stack slot: the callee for a plain call, the receiver
for a method. `arena` holds the structs the call built or was given a copy of; those that
nothing refers to are swept after `sweepAt` arrivals, the others go when the call returns. -/
structure Frame where
  closure : ObjectId
  base : Nat
  ip : Nat := 0
  arena : List StackStruct := []
  arrivals : Nat := 0
  sweepAt : Nat := 64

/-- A machine. Frames are listed innermost first, and open cells by descending slot. Globals
and natives are keyed by the string object of their name. `held` are objects that the host
keeps alive, and `now` is the time that scripts see, in milliseconds. -/
structure Machine where
  config : MachineConfig
  heap : Heap
  registry : Registry := {}
  output : Array UInt8 := #[]
  stack : Array Value := #[]
  frames : List Frame := []
  openCells : List (Nat × ObjectId) := []
  arenaBytes : UInt64 := 0
  globals : Std.TreeMap ObjectId Value := {}
  natives : Std.TreeMap ObjectId ObjectId := {}
  nextNode : NodeId := 0
  held : List ObjectId := []
  now : Float := 0

/-- Why a machine stops before its script ends: a fault, or code that no compiler emits. -/
inductive Stop where
  | fault (error : RuntimeError)
  | wrong

/-- Actions of the machine. One that stops keeps the state it stopped in. -/
abbrev Exec := EStateM Stop Machine

namespace Machine

/-- A struct owned by some frame. -/
def node? (machine : Machine) (id : NodeId) : Option StackStruct :=
  machine.frames.findSome? fun frame => StackStruct.findAmong? id frame.arena

def view (machine : Machine) : View :=
  ⟨machine.heap, machine.registry, machine.node?⟩

/-- The heap objects that a value of the operand stack keeps alive. -/
def valueRoots (machine : Machine) : Value → List ObjectId
  | .ref object => [object]
  | .stack node => ((machine.node? node).map StackStruct.references).getD []
  | _ => []

def Frame.roots (frame : Frame) : List ObjectId :=
  frame.closure :: frame.arena.flatMap StackStruct.references

/-- The heap objects that are in use. -/
def roots (machine : Machine) : List ObjectId :=
  machine.held ++ machine.registry.roots
    ++ machine.stack.toList.flatMap machine.valueRoots
    ++ machine.frames.flatMap Frame.roots
    ++ (machine.globals.toList.flatMap fun (name, value) => name :: value.object?.toList)
    ++ (machine.natives.toList.flatMap fun (name, native) => [name, native])
    ++ machine.openCells.map Prod.snd

/-- The entry of a frame in a trace: the line of the instruction it is executing, or of its
first one when it has not started. -/
def traceEntry (heap : Heap) (frame : Frame) : TraceEntry :=
  let prototype := (heap.closurePrototype? frame.closure).getD {}
  ⟨heap.displayName prototype, prototype.lines[frame.ip - 1]?.getD 0⟩

/-- The active calls, innermost first. -/
def trace (machine : Machine) : List TraceEntry :=
  machine.frames.map (traceEntry machine.heap)

/-- The value of a global. -/
def findGlobal (machine : Machine) (name : Text) : Option Value :=
  machine.heap.interned[name]?.bind fun key => machine.globals[key]?

/-- Stops with a fault, reporting the active calls. -/
def fail {α : Type} (fault : Fault) : Exec α := fun machine =>
  .error (.fault ⟨fault, machine.trace⟩) machine

/-- Stops because the code is not well formed. -/
def goWrong {α : Type} : Exec α :=
  throw .wrong

/-- The value of an option that well-formed code never leaves empty. -/
def given {α : Type} : Option α → Exec α
  | some value => return value
  | none => goWrong

/-- Runs a heap action. The objects in `pinned` are roots as well as those of the machine. -/
def allocating {α : Type} (pinned : List ObjectId)
    (action : (Unit → List ObjectId) → Heap.Action α) : Exec α := fun machine =>
  match action (fun _ => pinned ++ machine.roots) machine.heap with
  | .ok result heap => .ok result { machine with heap }
  | .error failure heap =>
    .error (.fault ⟨.exhausted failure, machine.trace⟩) { machine with heap }

def modifyHeap (change : Heap → Heap) : Exec Unit :=
  modify fun machine => { machine with heap := change machine.heap }

def push (value : Value) : Exec Unit := do
  if (← get).config.stackSlots ≤ (← get).stack.size then
    fail .stackOverflow
  modify fun machine => { machine with stack := machine.stack.push value }

/-- The value `distance` slots below the top of the stack. -/
def peek (distance : Nat) : Exec Value := do
  let stack := (← get).stack
  if distance < stack.size then given stack[stack.size - 1 - distance]? else goWrong

def pop : Exec Value := do
  let value ← peek 0
  modify fun machine => { machine with stack := machine.stack.pop }
  return value

/-- The value in a stack slot. -/
def slot (index : Nat) : Exec Value := do
  given (← get).stack[index]?

def setSlot (index : Nat) (value : Value) : Exec Unit := do
  if index < (← get).stack.size then
    modify fun machine => { machine with stack := machine.stack.setIfInBounds index value }
  else goWrong

/-- Replaces the value on top of the stack. -/
def setTop (value : Value) : Exec Unit := do
  setSlot ((← get).stack.size - 1) value

/-- Cuts the stack down to its lowest `size` slots. -/
def shrink (size : Nat) : Exec Unit :=
  modify fun machine => { machine with stack := machine.stack.shrink size }

/-- The innermost frame. -/
def topFrame : Exec Frame := do
  given (← get).frames.head?

/-- Changes the frame at a position, counted from the innermost. -/
def modifyFrame (index : Nat) (change : Frame → Frame) : Exec Unit :=
  modify fun machine => { machine with frames := machine.frames.modify index change }

/-- Appends to the output. -/
def write (text : Text) : Exec Unit :=
  modify fun machine => { machine with output := machine.output ++ text }

end Machine

end ScriptMachine
