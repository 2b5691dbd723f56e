import ScriptMachine.Machine.State

set_option autoImplicit false

/- Frame-owned structs: copying them into a frame, charging and sweeping a frame's arena, and
moving a struct to the heap. -/
namespace ScriptMachine.Machine

/-- The fewest arrivals between two sweeps of an arena. -/
def minSweep : Nat := 64

/-- The bytes of the structs in an arena. -/
def arenaSize (arena : List StackStruct) : UInt64 :=
  (arena.foldl (fun total struct => total + StackStruct.bytes struct) 0).toUInt64

/-- The frame-owned structs that the operand stack names. -/
def referenced (machine : Machine) : List NodeId :=
  machine.stack.toList.filterMap Value.node?

/-- An arena without the structs, nested displaced ones included, that no node in `nodes`
keeps. -/
def sweptArena (nodes : List NodeId) (arena : List StackStruct) : List StackStruct :=
  arena.filterMap fun struct =>
    let (reached, pruned) := struct.prune nodes.contains
    if reached then some pruned else none

/-- Sweeps the arena of a frame and gives its bytes back to the heap. -/
def sweepArena (index : Nat) : Exec Unit := do
  let frame ← given (← get).frames[index]?
  let live := sweptArena (referenced (← get)) frame.arena
  let freed := arenaSize frame.arena - arenaSize live
  modifyFrame index fun frame =>
    { frame with arena := live, arrivals := 0, sweepAt := max minSweep (2 * live.length) }
  modify fun machine =>
    { machine with
      heap := machine.heap.release freed
      arenaBytes := machine.arenaBytes - freed }

/-- Charges a frame with bytes of structs. Its arena is swept first when enough structs have
arrived or the heap limit asks for it. -/
def charge (index : Nat) (bytes : UInt64) : Exec Unit := do
  modifyFrame index fun frame => { frame with arrivals := frame.arrivals + 1 }
  let frame ← given (← get).frames[index]?
  if frame.sweepAt ≤ frame.arrivals || (← get).heap.overLimit bytes then
    sweepArena index
  allocating [] (Heap.reserve · bytes)
  modify fun machine => { machine with arenaBytes := machine.arenaBytes + bytes }

/-- Gives a struct to a frame. The struct is not in the arena while that is swept. -/
def adopt (index : Nat) (struct : StackStruct) : Exec Value := do
  charge index struct.bytes.toUInt64
  modifyFrame index fun frame => { frame with arena := struct :: frame.arena }
  return .stack struct.id

/-- A copy of a struct, made of nodes that are not in use. -/
def fresh (struct : StackStruct) : Exec StackStruct :=
  modifyGet fun machine =>
    let (copy, nextNode) := struct.clone machine.nextNode
    (copy, { machine with nextNode })

/-- Gives a frame its own copy of a struct. -/
def copyInto (index : Nat) (struct : StackStruct) : Exec Value := do
  adopt index (← fresh struct)

/-- A struct named by the operand stack. -/
def struct (id : NodeId) : Exec StackStruct := do
  given ((← get).node? id)

/-- Changes a frame-owned struct, whichever frame owns it. -/
def modifyStruct (id : NodeId) (change : StackStruct → StackStruct) : Exec Unit :=
  modify fun machine =>
    { machine with
      frames := machine.frames.map fun frame =>
        { frame with arena := StackStruct.updateAmong id change frame.arena } }

mutual

/-- Allocates a heap instance with the contents of a struct. The instance is pinned while the
structs nested in it are moved. -/
def promote (pinned : List ObjectId) : StackStruct → Exec ObjectId
  | .node _ type slots _ => do
    let id ← allocating pinned (Heap.newRecord · type slots.length)
    promoteSlots (id :: pinned) id 0 slots
    return id

/-- Fills the fields of an instance from `index` on. -/
def promoteSlots (pinned : List ObjectId) (id : ObjectId) (index : Nat) : List Slot → Exec Unit
  | [] => return ()
  | .plain value :: rest => do
    modifyHeap fun heap => heap.setField id index value
    promoteSlots pinned id (index + 1) rest
  | .nested inner :: rest => do
    let moved ← promote pinned inner
    modifyHeap fun heap => heap.setField id index (.ref moved)
    promoteSlots pinned id (index + 1) rest

end

/-- A value that may be stored on the heap: a frame-owned struct is moved there first. -/
def heapValue (pinned : List ObjectId) : Value → Exec Value
  | .stack id => do
    return .ref (← promote pinned (← struct id))
  | value => return value

/-- Ends the innermost call and gives the bytes of its arena back. -/
def popFrame : Exec Unit := do
  let frame ← topFrame
  let bytes := arenaSize frame.arena
  modify fun machine =>
    { machine with
      heap := machine.heap.release bytes
      arenaBytes := machine.arenaBytes - bytes
      frames := machine.frames.drop 1 }

end ScriptMachine.Machine
